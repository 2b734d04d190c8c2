import ArchiveRemap.Proofs.Namespace.Building
import ArchiveRemap.Proofs.Namespace.Route
import Mathlib.Data.List.Perm.Subperm

/-!
Lines of first dependencies. A walk that goes on to the first dependency for as long as there is
one has no bound of its own. Where no namespace depends on itself through others it comes to none
twice, so it ends before it runs out of namespaces, and what a graph gives as a fallback line is
all of it. The first dependency in a graph is the one that the declaration names first.
-/

namespace ArchiveRemap.Graph

variable {graph : Graph}

/-! The walk without a bound. -/

/-- The namespaces gone through so far, and the one at which the walk stands. -/
structure Ascent where
  line : List Nat
  current : Nat
  deriving DecidableEq, Repr

/-- Go on to the first dependency, if there is one. -/
def Ascent.next? (graph : Graph) (ascent : Ascent) : Option Ascent :=
  (graph.dependencies ascent.current).head?.map fun parent =>
    ⟨ascent.line ++ [parent], parent⟩

/-- A walk does not go on for ever, and it stops with a line at a namespace without
dependencies. -/
structure Arrives (graph : Graph) (start : Ascent) (line : List Nat) : Prop where
  ends : Acc (fun after before => Ascent.next? graph before = some after) start
  stops : ∃ last, Relation.ReflTransGen
    (fun before after => Ascent.next? graph before = some after) start ⟨line, last⟩ ∧
      graph.dependencies last = []

namespace Arrives

variable {start after : Ascent} {line : List Nat}

theorem here (alone : graph.dependencies start.current = []) :
    Arrives graph start start.line where
  ends := by
    refine ⟨start, fun after turn => ?_⟩
    rw [Ascent.next?, alone] at turn
    cases turn
  stops := ⟨start.current, .refl, alone⟩

/-- There is only one way to go on, so all walks end if the next one does. -/
theorem climb (turn : Ascent.next? graph start = some after)
    (rest : Arrives graph after line) : Arrives graph start line where
  ends := by
    refine ⟨start, fun other elsewhere => ?_⟩
    cases turn.symm.trans elsewhere
    exact rest.ends
  stops := by
    obtain ⟨last, walk, alone⟩ := rest.stops
    exact ⟨last, .head turn walk, alone⟩

end Arrives

/-! The walk of so many steps. -/

/-- A line whose last namespace has no dependencies. -/
def Ended (graph : Graph) (line : List Nat) : Prop :=
  ∃ last, line.getLast? = some last ∧ graph.dependencies last = []

theorem isChain_firstDependencies (graph : Graph) (count id : Nat) :
    (id :: graph.firstDependencies count id).IsChain fun owner parent =>
      (graph.dependencies owner).head? = some parent := by
  fun_induction firstDependencies graph count id with
  | case1 id => exact .singleton id
  | case2 count id alone => exact .singleton id
  | case3 count id parent others depends ih =>
      exact .cons_cons (by rw [depends, List.head?_cons]) ih

/-- Either the walk ends, or it takes all the steps. -/
theorem ended_or_length_eq (graph : Graph) (count id : Nat) :
    graph.Ended (id :: graph.firstDependencies count id) ∨
      (graph.firstDependencies count id).length = count := by
  fun_induction firstDependencies graph count id with
  | case1 id => exact .inr rfl
  | case2 count id alone => exact .inl ⟨id, rfl, alone⟩
  | case3 count id parent others depends ih =>
      refine ih.imp (fun ⟨last, lastly, alone⟩ => ?_) (congrArg Nat.succ)
      exact ⟨last, by rw [List.getLast?_cons_cons, lastly], alone⟩

/-- A walk of so many steps that ended is the whole walk. -/
theorem arrives_of_ended {count id : Nat} (before : List Nat)
    (ended : graph.Ended (id :: graph.firstDependencies count id)) :
    Arrives graph ⟨before ++ [id], id⟩ (before ++ id :: graph.firstDependencies count id) := by
  fun_induction firstDependencies graph count id generalizing before with
  | case1 id =>
      obtain ⟨last, lastly, alone⟩ := ended
      cases lastly
      exact .here alone
  | case2 count id alone => exact .here alone
  | case3 count id parent others depends ih =>
      obtain ⟨last, lastly, alone⟩ := ended
      rw [List.getLast?_cons_cons] at lastly
      have turn : Ascent.next? graph ⟨before ++ [id], id⟩ =
          some ⟨(before ++ [id]) ++ [parent], parent⟩ := by
        rw [Ascent.next?, depends]
        rfl
      -- The line gone through so far moves on with the walk.
      rw [List.append_cons before id (parent :: _)]
      exact .climb turn (ih (before ++ [id]) ⟨last, lastly, alone⟩)

/-! Enough steps. -/

section Acyclic

variable (acyclic : ∀ id, ¬ Reaches graph.dependencies id id)
  (closed : ∀ id, ∀ dependency ∈ graph.dependencies id, dependency ∈ graph.ids)

include acyclic in
theorem nodup_firstDependencies (count id : Nat) :
    (id :: graph.firstDependencies count id).Nodup := by
  have linked : (id :: graph.firstDependencies count id).IsChain
      (Relation.TransGen fun owner dependency => dependency ∈ graph.dependencies owner) :=
    (isChain_firstDependencies graph count id).imp fun _ _ first =>
      .single (List.mem_of_mem_head? first)
  -- Each namespace of the line reaches all that come after it.
  refine linked.pairwise.imp ?_
  rintro owner _ reaches rfl
  exact acyclic owner reaches

include closed in
theorem firstDependencies_subset {id : Nat} (known : id ∈ graph.ids) (count : Nat) :
    id :: graph.firstDependencies count id ⊆ graph.ids := by
  fun_induction firstDependencies graph count id with
  | case1 id => exact List.cons_subset.mpr ⟨known, List.nil_subset _⟩
  | case2 count id alone => exact List.cons_subset.mpr ⟨known, List.nil_subset _⟩
  | case3 count id parent others depends ih =>
      have needed : parent ∈ graph.dependencies id := depends ▸ List.mem_cons_self
      exact List.cons_subset.mpr ⟨known, ih (closed id parent needed)⟩

include acyclic closed

theorem length_fallbackLine_le {id : Nat} (known : id ∈ graph.ids) :
    (graph.fallbackLine id).length ≤ graph.size := by
  have distinct := nodup_firstDependencies acyclic graph.size id
  have within := firstDependencies_subset closed known graph.size
  have bound := (List.subperm_of_subset distinct within).length_le
  rwa [ids, List.length_range] at bound

/-- A line that took all the steps would have more namespaces than there are. -/
theorem ended_fallbackLine {id : Nat} (known : id ∈ graph.ids) :
    graph.Ended (graph.fallbackLine id) := by
  refine (ended_or_length_eq graph graph.size id).resolve_right fun full => ?_
  have bound := length_fallbackLine_le acyclic closed known
  rw [fallbackLine, List.length_cons, full] at bound
  omega

end Acyclic

/-! First dependencies and declarations. -/

/-- The declaration of a namespace names another one as its first dependency. -/
def DeclaresFirst (declarations : List Declaration) (owner parent : Nat) : Prop :=
  ∃ declaration first, declarations[owner]? = some declaration ∧
    declaration.dependencies.head? = some first ∧
      (namesOf declarations)[parent]? = some (normalize first)

/-- What was found stays in front. -/
theorem keeps_resolveDependencies {names dependencies : List String} {owner : String}
    {found ids : List Nat}
    (resolved : resolveDependencies names owner found dependencies = .ok ids) : found <+: ids := by
  induction dependencies generalizing found with
  | nil =>
      cases resolved
      exact List.prefix_refl _
  | cons first rest ih =>
      rw [resolveDependencies] at resolved
      split at resolved
      · cases resolved
      · refine List.IsPrefix.trans ?_ (ih resolved)
        split
        · exact List.prefix_refl _
        · exact List.prefix_append _ _

theorem head?_resolveDependencies {names dependencies : List String} {owner : String}
    {ids : List Nat} (resolved : resolveDependencies names owner [] dependencies = .ok ids) :
    ids.head? = dependencies.head?.bind fun first => names.findIdx? (· = first) := by
  cases dependencies with
  | nil =>
      cases resolved
      rfl
  | cons first rest =>
      rw [resolveDependencies] at resolved
      split at resolved
      · cases resolved
      · rename_i id place
        rw [if_neg List.not_mem_nil, List.nil_append] at resolved
        obtain ⟨more, rfl⟩ := keeps_resolveDependencies resolved
        rw [List.head?_cons, Option.bind_some, place, List.singleton_append, List.head?_cons]

theorem resolveAll_heads {names : List String} {declarations : List Declaration}
    {namespaces : List Namespace} (resolved : resolveAll names declarations = .ok namespaces) :
    List.Forall₂ (fun declaration space => space.dependencies.head? =
      declaration.dependencies.head?.bind fun first => names.findIdx? (· = normalize first))
        declarations namespaces := by
  induction declarations generalizing namespaces with
  | nil =>
      cases resolved
      exact .nil
  | cons declaration rest ih =>
      simp only [resolveAll, bind, Except.bind] at resolved
      split at resolved
      · cases resolved
      · rename_i ids own
        split at resolved
        · cases resolved
        · rename_i others later
          cases resolved
          refine .cons ?_ (ih later)
          rw [head?_resolveDependencies own, List.head?_map, Option.bind_map]
          rfl

theorem resolveAll_of_build {declarations : List Declaration}
    (built : build declarations = .ok graph) :
    resolveAll (namesOf declarations) declarations = .ok graph.namespaces := by
  cases twice : repeated? [] (namesOf declarations) with
  | some name =>
      rw [build_of_repeated twice] at built
      cases built
  | none =>
      rw [build_of_distinct twice] at built
      split at built
      · cases built
      · rename_i namespaces resolved
        split at built
        · cases built
        · split at built
          · cases built
            exact resolved
          · cases built

section Built

variable {declarations : List Declaration} (built : build declarations = .ok graph)

include built

theorem declaresFirst_of_head? {owner parent : Nat}
    (first : (graph.dependencies owner).head? = some parent) :
    DeclaresFirst declarations owner parent := by
  obtain ⟨-, -, distinct, -⟩ := madeFrom_of_build built
  cases place : graph.get? owner with
  | none =>
      rw [dependencies, place] at first
      cases first
  | some space =>
      rw [dependencies, place] at first
      obtain ⟨declaration, there, heads⟩ :=
        exists_related (resolveAll_heads (resolveAll_of_build built)) place
      obtain ⟨name, named, found⟩ := Option.bind_eq_some_iff.mp (heads.symm.trans first)
      exact ⟨declaration, name, there, named, (findIdx?_eq_some_iff distinct).mp found⟩

/-- A namespace without dependencies was declared without any. -/
theorem exists_declaration_of_alone {id : Nat} (known : id ∈ graph.ids)
    (alone : graph.dependencies id = []) :
    ∃ declaration, declarations[id]? = some declaration ∧ declaration.dependencies = [] := by
  have made := (madeFrom_of_build built).1
  obtain ⟨space, place⟩ := Option.isSome_iff_exists.mp (mem_ids_iff.mp known)
  obtain ⟨declaration, there, resolved⟩ := exists_related made place
  refine ⟨declaration, there, List.eq_nil_iff_forall_not_mem.mpr fun dependency written => ?_⟩
  obtain ⟨other, found⟩ : ∃ other,
      (namesOf declarations).findIdx? (· = normalize dependency) = some other := by
    rw [← Option.isSome_iff_exists, List.findIdx?_isSome, List.any_eq_true]
    exact ⟨_, resolved.grounded dependency written, decide_eq_true rfl⟩
  have needed := (resolved.dependencies other).mpr ⟨dependency, written, found⟩
  have nothing : space.dependencies = [] := by
    rwa [dependencies, place] at alone
  rw [nothing] at needed
  exact List.not_mem_nil needed

end Built

theorem near_of_mem_dependencies {id dependency : Nat} (known : dependency ∈ graph.ids)
    (needed : dependency ∈ graph.dependencies id) : dependency ∈ graph.neighbors id :=
  List.mem_filter.mpr ⟨known, by simp [needed]⟩

/-- In a graph that was built, the walk from each of its namespaces to first dependencies ends, and
the fallback line is all of it. It starts with the namespace, goes on from each to the dependency
that is declared first, a neighbour, comes to none twice, and ends where none is declared. -/
theorem fallbackLine_arrives {declarations : List Declaration}
    (built : build declarations = .ok graph) {id : Nat} (known : id ∈ graph.ids) :
    Arrives graph ⟨[id], id⟩ (graph.fallbackLine id) ∧
    (graph.fallbackLine id).head? = some id ∧
    ((graph.fallbackLine id).IsChain fun owner parent =>
      (graph.dependencies owner).head? = some parent ∧
        DeclaresFirst declarations owner parent ∧
          graph.adjacent owner parent = true ∧ graph.adjacent parent owner = true) ∧
    (graph.fallbackLine id).Nodup ∧
    (graph.fallbackLine id).length ≤ graph.size ∧
    ∃ last declaration, (graph.fallbackLine id).getLast? = some last ∧
      graph.dependencies last = [] ∧ declarations[last]? = some declaration ∧
        declaration.dependencies = [] := by
  obtain ⟨made, -, -, acyclic⟩ := madeFrom_of_build built
  have within := firstDependencies_subset made.closed known graph.size
  have ended := ended_fallbackLine acyclic made.closed known
  refine ⟨arrives_of_ended [] ended, rfl, ?_, nodup_firstDependencies acyclic graph.size id,
    length_fallbackLine_le acyclic made.closed known, ?_⟩
  · refine (isChain_firstDependencies graph graph.size id).imp fun owner parent first => ?_
    have needed := List.mem_of_mem_head? first
    have near := near_of_mem_dependencies (made.closed owner parent needed) needed
    have back := near_comm (mem_ids_of_dependency needed) near
    exact ⟨first, declaresFirst_of_head? built first, List.contains_iff_mem.mpr near,
      List.contains_iff_mem.mpr back⟩
  · obtain ⟨last, lastly, alone⟩ := ended
    obtain ⟨declaration, there, none⟩ :=
      exists_declaration_of_alone built (within (List.mem_of_getLast? lastly)) alone
    exact ⟨last, declaration, lastly, alone, there, none⟩

/-! Dependencies that are declared later; one namespace has two, and one is declared twice. -/

def forwardDeclarations : List Declaration :=
  [⟨"yarn", true, ["intermediary", "official"]⟩,
    ⟨" Intermediary", false, ["official", "OFFICIAL"]⟩, ⟨"official", false, []⟩]

def forwardGraph : Graph :=
  ⟨[⟨"yarn", true, [1, 2]⟩, ⟨"intermediary", false, [2]⟩, ⟨"official", false, []⟩]⟩

theorem onCycle?_forwardGraph : forwardGraph.onCycle? = none := by
  have ordered : finishOrder forwardGraph.dependencies forwardGraph.ids [] forwardGraph.ids =
      .ok [0, 1, 2] := by cbv
  rw [onCycle?, ordered]
  decide +kernel

theorem fallbackLine_arrives_forward :
    (build forwardDeclarations = .ok forwardGraph ∧ 0 ∈ forwardGraph.ids) ∧
      Arrives forwardGraph ⟨[0], 0⟩ [0, 1, 2] ∧ [0, 1, 2].Nodup := by
  have built : build forwardDeclarations = .ok forwardGraph :=
    build_of_resolved (by decide +kernel) rfl onCycle?_forwardGraph (by decide +kernel)
  have known : 0 ∈ forwardGraph.ids := by decide
  obtain ⟨arrives, -, -, once, -⟩ := fallbackLine_arrives built known
  have line : forwardGraph.fallbackLine 0 = [0, 1, 2] := by decide
  rw [line] at arrives once
  exact ⟨⟨built, known⟩, arrives, once⟩

end ArchiveRemap.Graph
