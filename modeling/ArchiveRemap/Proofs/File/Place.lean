import ArchiveRemap.File.Tree
import Mathlib.Data.List.Basic

/-!
Where paths lead. A path that leads anywhere leads to the place that its text alone names,
seen from the directory that the tree is seen from. So what a path leads to never changes as
long as nothing that is there goes away.
-/

namespace ArchiveRemap

namespace PathText

theorem parts_append_slash (path rest : List Char) :
    parts (String.ofList (path ++ '/' :: rest)) =
      parts (String.ofList path) ++ parts (String.ofList rest) := by
  simp only [parts, String.toList_ofList]
  rw [List.splitOn_append_cons_self, List.map_append]

/-- Slashes at the end add nothing but empty parts. -/
theorem parts_append_slashes (path : List Char) (count : Nat) :
    parts (String.ofList (path ++ List.replicate count '/')) =
      parts (String.ofList path) ++ List.replicate count "" := by
  induction count with
  | zero => simp
  | succ count ih =>
      have last : parts (String.ofList []) = [""] := by simp [parts]
      rw [List.replicate_succ', ← List.append_assoc, parts_append_slash, ih, last,
        List.replicate_succ', List.append_assoc]

theorem isAbsolute_iff {path : String} :
    isAbsolute path = true ↔ path.toList.head? = some '/' := by
  unfold isAbsolute
  cases path.toList with
  | nil => simp [Text.startsWith, Text.dropHead?]
  | cons first rest =>
      by_cases same : '/' = first
      · subst first
        simp [Text.startsWith, Text.dropHead?]
      · simp [Text.startsWith, Text.dropHead?, same, Ne.symm same]

/-! Paths inside a directory. -/

section Join

variable {base path : String} (named : base ≠ "") (relative : isAbsolute path = false)

include named relative

theorem toList_join : ∃ front, (join base path).toList = front ++ '/' :: path.toList ∧
    (base.toList = front ∨ base.toList = front ++ ['/']) := by
  rw [join, relative, Bool.false_or, if_neg (by simpa using named)]
  split
  · rename_i slash
    rcases List.eq_nil_or_concat base.toList with empty | ⟨front, c, whole⟩
    · exact absurd (String.toList_inj.mp empty) named
    · rw [whole, List.concat_eq_append] at slash
      have same : c = '/' := by
        by_contra other
        simp [Text.endsWith, Text.dropTail?, Text.dropHead?, Ne.symm other] at slash
      exact ⟨front, by simp [whole, same], .inr (by simp [whole, same])⟩
  · exact ⟨base.toList, by simp, .inl rfl⟩

theorem mem_join {c : Char} (member : c ∈ base.toList) : c ∈ (join base path).toList := by
  obtain ⟨front, whole, own⟩ := toList_join named relative
  rw [whole]
  rcases own with same | same
  · exact List.mem_append_left _ (same ▸ member)
  · rw [same, List.mem_append, List.mem_singleton] at member
    rcases member with before | rfl
    · exact List.mem_append_left _ before
    · simp

/-- A path inside a directory has the parts of the directory, but for an empty one at their
end, before its own. -/
theorem parts_join : isAbsolute (join base path) = isAbsolute base ∧ ∃ front,
    parts (join base path) = front ++ parts path ∧
      (parts base = front ∨ parts base = front ++ [""]) := by
  obtain ⟨front, whole, own⟩ := toList_join named relative
  have inside := parts_append_slash front path.toList
  rw [← whole, String.ofList_toList, String.ofList_toList] at inside
  rw [Bool.eq_iff_iff, isAbsolute_iff, isAbsolute_iff, whole]
  have nonempty : base.toList ≠ [] := fun empty => named (String.toList_inj.mp empty)
  rcases own with same | same
  · subst same
    rw [List.head?_append_of_ne_nil _ nonempty]
    rw [String.ofList_toList] at inside
    exact ⟨.rfl, parts base, inside, .inl rfl⟩
  · refine ⟨?_, parts (String.ofList front), inside, .inr ?_⟩
    · simp [same]
    · have single : parts (String.ofList []) = [""] := by simp [parts]
      have spelled : base = String.ofList (front ++ ['/']) := by rw [← same, String.ofList_toList]
      rw [spelled, parts_append_slash, single]

end Join

theorem parts_ne_nil (path : String) : parts path ≠ [] := by
  simp [parts, List.splitOn_ne_nil]

end PathText

namespace FileTree

variable {tree : FileTree} {place next : Place} {path part : String}

/-- Where a part leads from a directory. -/
def lead (place : Place) (part : String) : Place :=
  if part = "" || part = "." then place
  else if part = ".." then place.dropLast
  else place ++ [part]

/-- The place that a path names, whether or not there is anything on the way. -/
def placeOf (tree : FileTree) (path : String) : Place :=
  (PathText.parts path).foldl lead (if PathText.isAbsolute path then [] else tree.here)

theorem placeOf_of_here {other : FileTree} (here : other.here = tree.here) (path : String) :
    other.placeOf path = tree.placeOf path := by
  rw [placeOf, placeOf, here]

theorem step_eq_ok (found : tree.step place part = .ok next) :
    next = lead place part ∧ tree.isDirectory place = true ∧
      (part = "" ∨ part = "." ∨ part = ".." ∨ part.utf8ByteSize ≤ 255) := by
  unfold step at found
  unfold lead
  split at found
  · cases found
  · rename_i directory
    have directory : tree.isDirectory place = true := by simpa using directory
    split at found
    · rename_i idle
      cases found
      simp only [idle, if_true, directory, true_and]
      simp only [Bool.or_eq_true, decide_eq_true_eq] at idle
      tauto
    · rename_i busy
      split at found
      · rename_i up
        cases found
        simp [up, directory]
      · rename_i down
        split at found
        · cases found
        · rename_i fits
          cases found
          simp [busy, down, directory, Nat.not_lt.mp fits]

/-- A part is followed the same way wherever the directory is there. -/
theorem step_of_directory {other : FileTree} (found : tree.step place part = .ok next)
    (directory : other.isDirectory place = true) : other.step place part = .ok next := by
  have here := (step_eq_ok found).2.1
  simpa only [step, here, directory, Bool.not_true, Bool.false_eq_true, if_false] using found

theorem foldl_lead_of_foldlM {parts : List String}
    (found : parts.foldlM tree.step place = .ok next) : next = parts.foldl lead place := by
  induction parts generalizing place with
  | nil => cases found; rfl
  | cons part rest ih =>
      rw [List.foldlM_cons] at found
      cases first : tree.step place part with
      | error fault => rw [first] at found; cases found
      | ok middle =>
          rw [first] at found
          rw [List.foldl_cons, ← (step_eq_ok first).1]
          exact ih found

theorem foldlM_step_of_grown {other : FileTree}
    (grown : ∀ place, tree.isDirectory place = true → other.isDirectory place = true)
    {parts : List String} (found : parts.foldlM tree.step place = .ok next) :
    parts.foldlM other.step place = .ok next := by
  induction parts generalizing place with
  | nil => exact found
  | cons part rest ih =>
      rw [List.foldlM_cons] at found ⊢
      cases first : tree.step place part with
      | error fault => rw [first] at found; cases found
      | ok middle =>
          rw [first] at found
          rw [step_of_directory first (grown place (step_eq_ok first).2.1)]
          exact ih found

/-- What `locate` gives for a path with a name in it. -/
theorem locate_eq_ok_iff :
    tree.locate path = .ok place ↔ '\x00' ∉ path.toList ∧ path ≠ "" ∧
      (PathText.parts path).foldlM tree.step
        (if PathText.isAbsolute path then [] else tree.here) = .ok place := by
  unfold locate
  split
  · rename_i invalid
    simp [invalid]
  · split
    · rename_i empty
      simp [empty]
    · rename_i valid empty
      simp [valid, empty]

theorem eq_placeOf_of_locate (found : tree.locate path = .ok place) :
    place = tree.placeOf path :=
  foldl_lead_of_foldlM (locate_eq_ok_iff.mp found).2.2

theorem locate_of_grown {other : FileTree} (here : other.here = tree.here)
    (grown : ∀ place, tree.isDirectory place = true → other.isDirectory place = true)
    (found : tree.locate path = .ok place) : other.locate path = .ok place := by
  obtain ⟨valid, named, followed⟩ := locate_eq_ok_iff.mp found
  exact locate_eq_ok_iff.mpr ⟨valid, named, here ▸ foldlM_step_of_grown grown followed⟩

/-! Paths that end in slashes. -/

theorem exists_bare (path : String) :
    ∃ count, path.toList = (bare path).toList ++ List.replicate count '/' := by
  have slashes : ∀ c ∈ path.toList.reverse.takeWhile fun c => decide (c = '/'), c = '/' := by
    intro c member
    have hit := List.all_eq_true.mp List.all_takeWhile c member
    exact of_decide_eq_true hit
  have split := List.takeWhile_append_dropWhile (p := fun c => decide (c = '/'))
    (l := path.toList.reverse)
  rw [List.eq_replicate_of_mem slashes] at split
  have back := congrArg List.reverse split
  rw [List.reverse_reverse, List.reverse_append, List.reverse_replicate] at back
  exact ⟨_, by rw [bare, String.toList_ofList, Text.trimEnd, back]⟩

theorem bare_of_last {c : Char} (last : path.toList.getLast? = some c) (other : c ≠ '/') :
    bare path = path := by
  obtain ⟨front, same⟩ := List.getLast?_eq_some_iff.mp last
  have kept : Text.trimEnd (fun c => c = '/') path.toList = path.toList := by
    rw [same]
    simp [Text.trimEnd, other]
  rw [bare, kept, String.ofList_toList]

/-- What slashes at the end change about a path. -/
theorem parts_of_bare (named : bare path ≠ "") :
    PathText.isAbsolute path = PathText.isAbsolute (bare path) ∧
      ∃ count, PathText.parts path =
        PathText.parts (bare path) ++ List.replicate count "" := by
  obtain ⟨count, whole⟩ := exists_bare path
  have nonempty : (bare path).toList ≠ [] := fun empty =>
    named (String.toList_inj.mp (by rw [empty]; rfl))
  constructor
  · have head : path.toList.head? = (bare path).toList.head? := by
      rw [whole, List.head?_append_of_ne_nil _ nonempty]
    rw [Bool.eq_iff_iff, PathText.isAbsolute_iff, PathText.isAbsolute_iff, head]
  · refine ⟨count, ?_⟩
    have split := PathText.parts_append_slashes (bare path).toList count
    rwa [← whole, String.ofList_toList, String.ofList_toList] at split

theorem foldl_lead_empty (place : Place) (count : Nat) :
    (List.replicate count "").foldl lead place = place := by
  induction count with
  | zero => rfl
  | succ count ih => exact ih

theorem placeOf_bare (named : bare path ≠ "") : tree.placeOf (bare path) = tree.placeOf path := by
  obtain ⟨absolute, count, parts⟩ := parts_of_bare named
  rw [placeOf, placeOf, parts, absolute, List.foldl_append, foldl_lead_empty]

end FileTree

end ArchiveRemap
