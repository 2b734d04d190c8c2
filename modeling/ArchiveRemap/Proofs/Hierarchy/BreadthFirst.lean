import ArchiveRemap.Proofs.Hierarchy.Order
import Mathlib.Data.List.Basic
import Mathlib.Data.Nat.Find

/-!
The order of a search for supertypes. A name may wait in the queue more than once, since it is
taken off the unseen names only when its turn comes. What counts is where it comes first: the
result is the name searched for and behind it the parents of the result itself, each where it
comes first. Everything else about the order follows from this one equation.
-/

namespace ArchiveRemap.Hierarchy

/-! First places. -/

/-- The unseen names of a queue, each where it comes first. -/
def firsts (unseen : List String) : List String → List String
  | [] => []
  | name :: rest =>
      if name ∈ unseen then name :: firsts (unseen.erase name) rest else firsts unseen rest

theorem mem_firsts {name : String} {unseen queue : List String} :
    name ∈ firsts unseen queue ↔ name ∈ queue ∧ name ∈ unseen := by
  induction queue generalizing unseen with
  | nil => simp [firsts]
  | cons head rest ih =>
      rw [firsts]
      by_cases same : name = head
      · subst same
        split <;> simp_all
      · split
        · simp [ih, same, List.mem_erase_of_ne same]
        · simp [ih, same]

/-- Behind a name that is not among them, names keep the order they had. -/
theorem pairwise_idxOf_cons {names queue : List String} {head : String} (absent : head ∉ names)
    (ordered : names.Pairwise fun left right => queue.idxOf left < queue.idxOf right) :
    names.Pairwise fun left right =>
      (head :: queue).idxOf left < (head :: queue).idxOf right := by
  refine ordered.imp_of_mem fun {left right} leftMember rightMember sooner => ?_
  have leftApart : head ≠ left := fun same => absent (same ▸ leftMember)
  have rightApart : head ≠ right := fun same => absent (same ▸ rightMember)
  rw [List.idxOf_cons_ne _ leftApart, List.idxOf_cons_ne _ rightApart]
  exact Nat.succ_lt_succ sooner

/-- In front of something in the first part of a list stands only what is in that part too. -/
theorem mem_of_idxOf_append_lt {front back : List String} {left right : String}
    (sooner : (front ++ back).idxOf left < (front ++ back).idxOf right) (listed : right ∈ front) :
    left ∈ front := by
  by_contra absent
  rw [List.idxOf_append_of_notMem absent, List.idxOf_append_of_mem listed] at sooner
  have inside := List.idxOf_lt_length_iff.mpr listed
  omega

/-- First places keep the order of the queue. -/
theorem pairwise_firsts {unseen : List String} (distinct : unseen.Nodup) (queue : List String) :
    (firsts unseen queue).Pairwise fun left right => queue.idxOf left < queue.idxOf right := by
  induction queue generalizing unseen with
  | nil => exact .nil
  | cons head rest ih =>
      rw [firsts]
      split
      · -- A name that was taken off the unseen ones does not come again.
        have absent : head ∉ firsts (unseen.erase head) rest := fun later =>
          distinct.not_mem_erase (mem_firsts.mp later).2
        refine List.pairwise_cons.mpr ⟨fun right later => ?_, ?_⟩
        · have apart : head ≠ right := fun same => absent (same ▸ later)
          rw [List.idxOf_cons_self, List.idxOf_cons_ne _ apart]
          exact Nat.succ_pos _
        · exact pairwise_idxOf_cons absent (ih (distinct.erase head))
      · rename_i seen
        exact pairwise_idxOf_cons (fun later => seen (mem_firsts.mp later).2) (ih distinct)

/-- What a search visits are the first places in its queue with the parents of all it visits
behind it. -/
theorem visit_eq_firsts (parents : String → List String) (unseen queue : List String) :
    visit parents unseen queue =
      firsts unseen (queue ++ (visit parents unseen queue).flatMap parents) := by
  -- One visit takes a name from the front of the queue and puts its parents at the end, which
  -- is where the parents of the later visits begin.
  induction unseen, queue using visit.induct parents with
  | case1 unseen => simp [firsts]
  | case2 unseen current rest member ih =>
      rw [visit_of_mem member, List.cons_append, firsts, if_pos member, List.flatMap_cons,
        ← List.append_assoc]
      exact congrArg (current :: ·) ih
  | case3 unseen current rest absent ih =>
      rw [visit_of_not_mem absent, List.cons_append, firsts, if_neg absent]
      exact ih

/-- What holds of the names in the queue, and of the parents of what it holds of, holds of
everything visited. -/
theorem visit_induction {parents : String → List String} {motive : String → Prop}
    (upwards : ∀ child, motive child → ∀ parent ∈ parents child, motive parent)
    {unseen queue : List String} (queued : ∀ name ∈ queue, motive name) :
    ∀ name ∈ visit parents unseen queue, motive name := by
  induction unseen, queue using visit.induct parents with
  | case1 unseen => simp
  | case2 unseen current rest member ih =>
      obtain ⟨first, others⟩ := List.forall_mem_cons.mp queued
      rw [visit_of_mem member]
      exact List.forall_mem_cons.mpr
        ⟨first, ih (List.forall_mem_append.mpr ⟨others, upwards current first⟩)⟩
  | case3 unseen current rest absent ih =>
      rw [visit_of_not_mem absent]
      exact ih (List.forall_mem_cons.mp queued).2

/-! Ways up. -/

variable {hierarchy : Hierarchy} {name child parent owner : String} {steps : Nat}

/-- A way of some length from a class up to another one. It passes known classes only, and every
step is to the superclass or to an interface of the class before. -/
inductive Climbs (hierarchy : Hierarchy) (name : String) : Nat → String → Prop where
  | start (known : hierarchy.knows name = true) : Climbs hierarchy name 0 name
  | up {steps : Nat} {child parent : String} (below : Climbs hierarchy name steps child)
      (listed : parent ∈ hierarchy.parents child) (known : hierarchy.knows parent = true) :
      Climbs hierarchy name (steps + 1) parent

/-- The length of the shortest way up. -/
def IsDistance (hierarchy : Hierarchy) (name owner : String) (steps : Nat) : Prop :=
  hierarchy.Climbs name steps owner ∧
    ∀ others, hierarchy.Climbs name others owner → steps ≤ others

theorem Climbs.exists_distance (climbs : hierarchy.Climbs name steps owner) :
    ∃ least, hierarchy.IsDistance name owner least := by
  classical
  have reached : ∃ steps, hierarchy.Climbs name steps owner := ⟨steps, climbs⟩
  exact ⟨Nat.find reached, Nat.find_spec reached, fun _ other => Nat.find_min' reached other⟩

theorem Climbs.knows (climbs : hierarchy.Climbs name steps owner) :
    hierarchy.knows owner = true := by
  cases climbs with
  | start known => exact known
  | up below listed known => exact known

theorem Climbs.trans {further : Nat} (below : hierarchy.Climbs name steps child)
    (above : hierarchy.Climbs child further owner) :
    hierarchy.Climbs name (steps + further) owner := by
  induction above with
  | start known => exact below
  | up middle listed known ih => exact .up ih listed known

/-! What a search finds. -/

/-- The queue of a search as its result tells it. -/
theorem ancestors_eq_firsts (hierarchy : Hierarchy) (name : String) :
    hierarchy.ancestors name = firsts hierarchy.classes.keys
      (name :: (hierarchy.ancestors name).flatMap hierarchy.parents) :=
  visit_eq_firsts ..

theorem ancestors_of_unknown (unknown : hierarchy.knows name = false) :
    hierarchy.ancestors name = [] := by
  have absent : name ∉ hierarchy.classes.keys := by simp [mem_keys_iff, unknown]
  rw [ancestors, visit_of_not_mem absent, visit_nil]

/-- A search begins at the class searched for. -/
theorem exists_ancestors_eq_cons (known : hierarchy.knows name = true) :
    ∃ rest, hierarchy.ancestors name = name :: rest :=
  ⟨_, visit_of_mem (mem_keys_iff.mpr known)⟩

/-- A search finds exactly the classes that a way leads up to. -/
theorem mem_ancestors_iff :
    owner ∈ hierarchy.ancestors name ↔ ∃ steps, hierarchy.Climbs name steps owner := by
  constructor
  · intro found
    have reached : hierarchy.knows owner = true → ∃ steps, hierarchy.Climbs name steps owner := by
      refine visit_induction (motive := fun owner => hierarchy.knows owner = true →
        ∃ steps, hierarchy.Climbs name steps owner) ?_ ?_ owner found
      · intro child reached parent listed known
        -- Only a known class has parents at all.
        have childKnown : hierarchy.knows child = true := by
          cases shape : hierarchy.class? child with
          | none => simp [Hierarchy.parents, shape] at listed
          | some info => rw [Hierarchy.knows, shape]; rfl
        obtain ⟨steps, below⟩ := reached childKnown
        exact ⟨steps + 1, .up below listed known⟩
      · intro first queued known
        rw [List.mem_singleton.mp queued] at known ⊢
        exact ⟨0, .start known⟩
    rw [ancestors_eq_firsts] at found
    exact reached (mem_keys_iff.mp (mem_firsts.mp found).2)
  · rintro ⟨steps, climbs⟩
    induction climbs with
    | start known =>
        rw [ancestors_eq_firsts, mem_firsts]
        exact ⟨List.mem_cons_self, mem_keys_iff.mpr known⟩
    | up below listed known ih =>
        rw [ancestors_eq_firsts, mem_firsts]
        exact ⟨List.mem_cons_of_mem _ (List.mem_flatMap.mpr ⟨_, ih, listed⟩),
          mem_keys_iff.mpr known⟩

/-- A supertype of a supertype is a supertype. -/
theorem mem_ancestors_trans (below : child ∈ hierarchy.ancestors name)
    (above : owner ∈ hierarchy.ancestors child) : owner ∈ hierarchy.ancestors name := by
  obtain ⟨steps, first⟩ := mem_ancestors_iff.mp below
  obtain ⟨further, second⟩ := mem_ancestors_iff.mp above
  exact mem_ancestors_iff.mpr ⟨_, first.trans second⟩

/-! The order of what a search finds. -/

/-- The place in a result of the first class that lists a name as a parent. -/
def listedAt (hierarchy : Hierarchy) (found : List String) (name : String) : Nat :=
  found.findIdx fun child => name ∈ hierarchy.parents child

/-- Listed by an earlier class of a result, or by the same class and there declared first. -/
def ListedBefore (hierarchy : Hierarchy) (found : List String) (left right : String) : Prop :=
  hierarchy.listedAt found left < hierarchy.listedAt found right ∨
    hierarchy.listedAt found left = hierarchy.listedAt found right ∧
      ∃ child, found[hierarchy.listedAt found left]? = some child ∧
        (hierarchy.parents child).idxOf left < (hierarchy.parents child).idxOf right

variable {left right : String}

theorem listedBefore_of_sooner {found : List String}
    (sooner : (found.flatMap hierarchy.parents).idxOf left <
      (found.flatMap hierarchy.parents).idxOf right) :
    hierarchy.ListedBefore found left right := by
  induction found with
  | nil => simp at sooner
  | cons child rest ih =>
      rw [List.flatMap_cons] at sooner
      by_cases leftListed : left ∈ hierarchy.parents child
      · by_cases rightListed : right ∈ hierarchy.parents child
        · rw [List.idxOf_append_of_mem leftListed, List.idxOf_append_of_mem rightListed] at sooner
          simpa [ListedBefore, listedAt, List.findIdx_cons, leftListed, rightListed] using sooner
        · simp [ListedBefore, listedAt, List.findIdx_cons, leftListed, rightListed]
      · -- What comes later is not listed here either, so both places move on by one class.
        have rightAbsent : right ∉ hierarchy.parents child := fun rightListed =>
          leftListed (mem_of_idxOf_append_lt sooner rightListed)
        rw [List.idxOf_append_of_notMem leftListed,
          List.idxOf_append_of_notMem rightAbsent] at sooner
        simpa [ListedBefore, listedAt, List.findIdx_cons, leftListed, rightAbsent] using
          ih (Nat.lt_of_add_lt_add_left sooner)

/-- What is listed before a parent of a class is listed by this class or by one before it. -/
theorem exists_lister_of_sooner {front back : List String}
    (listed : right ∈ hierarchy.parents child)
    (sooner : ((front ++ child :: back).flatMap hierarchy.parents).idxOf left <
      ((front ++ child :: back).flatMap hierarchy.parents).idxOf right) :
    (∃ lister ∈ front, left ∈ hierarchy.parents lister) ∨ left ∈ hierarchy.parents child := by
  rw [List.append_cons, List.flatMap_append] at sooner
  simpa using mem_of_idxOf_append_lt sooner (by simp [listed])

/-- The place of a class in the queue of a search. -/
def queuedAt (hierarchy : Hierarchy) (name owner : String) : Nat :=
  (name :: (hierarchy.ancestors name).flatMap hierarchy.parents).idxOf owner

theorem pairwise_ancestors (distinct : hierarchy.classes.keys.Nodup) (name : String) :
    (hierarchy.ancestors name).Pairwise fun left right =>
      hierarchy.queuedAt name left < hierarchy.queuedAt name right := by
  have ordered := pairwise_firsts distinct
    (name :: (hierarchy.ancestors name).flatMap hierarchy.parents)
  rwa [← ancestors_eq_firsts] at ordered

theorem queuedAt_of_ne (apart : owner ≠ name) : hierarchy.queuedAt name owner =
    ((hierarchy.ancestors name).flatMap hierarchy.parents).idxOf owner + 1 :=
  List.idxOf_cons_ne _ apart.symm

/-- Nothing comes sooner than the class searched for. -/
theorem ne_of_sooner (sooner : hierarchy.queuedAt name left < hierarchy.queuedAt name right) :
    right ≠ name := by
  rintro rfl
  have front : hierarchy.queuedAt right right = 0 := List.idxOf_cons_self
  rw [front] at sooner
  exact absurd sooner (Nat.not_lt_zero _)

/-- Behind the class searched for stand the parents of what is found. -/
theorem idxOf_lt_of_sooner (apart : left ≠ name)
    (sooner : hierarchy.queuedAt name left < hierarchy.queuedAt name right) :
    ((hierarchy.ancestors name).flatMap hierarchy.parents).idxOf left <
      ((hierarchy.ancestors name).flatMap hierarchy.parents).idxOf right := by
  have rightApart := ne_of_sooner sooner
  rw [queuedAt_of_ne apart, queuedAt_of_ne rightApart] at sooner
  exact Nat.lt_of_succ_lt_succ sooner

/-- What comes sooner is not further away. The induction is on the way to the later class: what
stands before it is a parent of the class below it, or of one that stands before that class. -/
theorem Climbs.of_sooner (distinct : hierarchy.classes.keys.Nodup)
    (climbs : hierarchy.Climbs name steps right) (found : left ∈ hierarchy.ancestors name)
    (sooner : hierarchy.queuedAt name left < hierarchy.queuedAt name right) :
    ∃ fewer ≤ steps, hierarchy.Climbs name fewer left := by
  induction climbs generalizing left with
  | start known => exact absurd rfl (ne_of_sooner sooner)
  | @up steps child right below listed known ih =>
      obtain ⟨_, reached⟩ := mem_ancestors_iff.mp found
      by_cases same : left = name
      · subst same
        exact ⟨0, Nat.zero_le _, .start reached.knows⟩
      · have behind := idxOf_lt_of_sooner same sooner
        have ordered := pairwise_ancestors distinct name
        obtain ⟨front, back, split⟩ :=
          List.append_of_mem (mem_ancestors_iff.mpr ⟨steps, below⟩)
        rw [split] at behind ordered
        rcases exists_lister_of_sooner listed behind with ⟨lister, member, lists⟩ | lists
        · have before := (List.pairwise_append.mp ordered).2.2 lister member child
            List.mem_cons_self
          have listerFound : lister ∈ hierarchy.ancestors name := by
            rw [split]
            exact List.mem_append_left _ member
          obtain ⟨fewer, atMost, way⟩ := ih listerFound before
          exact ⟨fewer + 1, Nat.succ_le_succ atMost, .up way lists reached.knows⟩
        · exact ⟨steps + 1, Nat.le_refl _, .up below lists reached.knows⟩

/-- What comes sooner is nearer, or as near and listed before. -/
theorem exists_distances_of_sooner (distinct : hierarchy.classes.keys.Nodup)
    (leftFound : left ∈ hierarchy.ancestors name) (rightFound : right ∈ hierarchy.ancestors name)
    (sooner : hierarchy.queuedAt name left < hierarchy.queuedAt name right) :
    ∃ near far, hierarchy.IsDistance name left near ∧ hierarchy.IsDistance name right far ∧
      (near < far ∨
        near = far ∧ hierarchy.ListedBefore (hierarchy.ancestors name) left right) := by
  obtain ⟨_, leftWay⟩ := mem_ancestors_iff.mp leftFound
  obtain ⟨_, rightWay⟩ := mem_ancestors_iff.mp rightFound
  obtain ⟨near, leftNear⟩ := leftWay.exists_distance
  obtain ⟨far, rightFar⟩ := rightWay.exists_distance
  obtain ⟨fewer, atMost, way⟩ := rightFar.1.of_sooner distinct leftFound sooner
  have inOrder : near ≤ far := Nat.le_trans (leftNear.2 fewer way) atMost
  refine ⟨near, far, leftNear, rightFar, ?_⟩
  rcases Nat.lt_or_eq_of_le inOrder with nearer | level
  · exact .inl nearer
  · -- The class searched for is alone at its distance, so it is not one of two at the same.
    have leftApart : left ≠ name := by
      rintro rfl
      have atOnce := leftNear.2 0 (.start leftNear.1.knows)
      obtain rfl : far = 0 := by omega
      cases rightFar.1
      exact ne_of_sooner sooner rfl
    exact .inr ⟨level, listedBefore_of_sooner (idxOf_lt_of_sooner leftApart sooner)⟩

/-- The order of a breadth-first search from a class through its known supertypes. -/
structure BreadthFirst (hierarchy : Hierarchy) (name : String) (found : List String) : Prop where
  first : found.head? = some name
  reached : ∀ owner, owner ∈ found ↔ ∃ steps, hierarchy.Climbs name steps owner
  once : found.Nodup
  ordered : found.Pairwise fun left right => ∃ near far,
    hierarchy.IsDistance name left near ∧ hierarchy.IsDistance name right far ∧
      (near < far ∨ near = far ∧ hierarchy.ListedBefore found left right)

/-- The supertypes of a class are searched breadth first in every hierarchy, whatever cycles,
diamonds and unknown classes are in it. A class that is not known has no supertypes. -/
theorem Built.ancestors_breadthFirst (built : hierarchy.Built) (name : String) :
    (hierarchy.knows name = true → hierarchy.BreadthFirst name (hierarchy.ancestors name)) ∧
      (hierarchy.knows name = false → hierarchy.ancestors name = []) := by
  refine ⟨fun known => ?_, ancestors_of_unknown⟩
  have queued := pairwise_ancestors built.distinct name
  refine ⟨?_, fun owner => mem_ancestors_iff, ?_, ?_⟩
  · obtain ⟨rest, begins⟩ := exists_ancestors_eq_cons known
    rw [begins]
    rfl
  · exact queued.imp fun sooner same => absurd (same ▸ sooner) (Nat.lt_irrefl _)
  · exact queued.imp_of_mem fun leftFound rightFound sooner =>
      exists_distances_of_sooner built.distinct leftFound rightFound sooner

def emptyNode (name : String) (superName : Option String) (interfaces : List String) : ClassNode :=
  ⟨name, 0, superName, interfaces, [], [], []⟩

/-- A class that is its own interface, two that are each other's supertypes, two ways to most of
the classes and one class that is not known. -/
def tangled : Hierarchy := ofNodes
  [emptyNode "a" (some "b") ["c", "x", "a"], emptyNode "b" (some "d") ["c"],
    emptyNode "c" none ["d", "a", "e"], emptyNode "d" (some "b") ["e"], emptyNode "e" none []]

theorem Built.ancestors_breadthFirst_tangled :
    tangled.Built ∧ tangled.knows "a" = true ∧
      tangled.BreadthFirst "a" (tangled.ancestors "a") ∧
      tangled.ancestors "a" = ["a", "b", "c", "d", "e"] ∧
      tangled.knows "x" = false ∧ tangled.ancestors "x" = [] := by
  have built : tangled.Built := built_ofNodes _
  have keys : tangled.classes.keys = ["a", "b", "c", "d", "e"] := by decide
  have above : ["a", "b", "c", "d", "e"].map tangled.parents =
      [["b", "c", "x", "a"], ["d", "c"], ["d", "a", "e"], ["b", "e"], []] := by decide
  simp only [List.map_cons, List.map_nil, List.cons.injEq, and_true] at above
  obtain ⟨a, b, c, d, e⟩ := above
  refine ⟨built, by decide, (ancestors_breadthFirst built "a").1 (by decide), ?_, by decide,
    (ancestors_breadthFirst built "x").2 (by decide)⟩
  simp [ancestors, visit, keys, a, b, c, d, e]

end ArchiveRemap.Hierarchy
