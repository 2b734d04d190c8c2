import ArchiveRemap.Mixin.Resolve

/-!
The references that maps hold for members. One that names its owner and its descriptor is a
target of an injection point too, and reads the same in both ways: the reader of maps finds
the owner, the name and the descriptor that the reader of targets finds.
-/

namespace ArchiveRemap.Mixin

namespace Scope

/-- Whether a method target stands for all methods of its name. -/
def isWild (target : String) : Bool := Text.endsWith ['*'] target.toList

/-- A method target without its stars, as a reference. -/
def methodReference (target : String) : WrittenMember := .ofMethod (trimStars target)

theorem trimStars_of_tame {text : String} (tame : isWild text = false) :
    trimStars text = text := by
  rw [trimStars, Text.trimEnd]
  cases backward : text.toList.reverse with
  | nil => rw [List.dropWhile_nil, ← backward, List.reverse_reverse, String.ofList_toList]
  | cons last rest =>
      have other : last ≠ '*' := by
        rintro rfl
        refine Bool.eq_false_iff.mp tame (Text.endsWith_iff.mpr ⟨rest.reverse, ?_⟩)
        rw [← List.reverse_cons, ← backward, List.reverse_reverse]
      rw [List.dropWhile_cons_of_neg (by simpa using other), ← backward, List.reverse_reverse,
        String.ofList_toList]

end Scope

/-! What the reader of targets cuts off. -/

namespace PointTarget

theorem cutOwner_of_objectOwner? {text owner after : List Char}
    (found : objectOwner? text = some (owner, after)) :
    WrittenMember.cutOwner text = (some (String.ofList owner), after) := by
  unfold objectOwner? at found
  split at found
  · rename_i first rest behind cut
    cases found
    rw [WrittenMember.cutOwner, cut]
  · cases found

theorem eq_of_objectOwner? {text owner after : List Char}
    (found : objectOwner? text = some (owner, after)) : text = 'L' :: owner ++ ';' :: after := by
  unfold objectOwner? at found
  split at found
  · rename_i first rest behind cut
    cases found
    obtain ⟨body, head, cut⟩ := Option.bind_eq_some_iff.mp cut
    rw [Text.dropHead?_eq_some_iff.mp head, Text.eq_of_cut cut]
    rfl
  · cases found

theorem cut_of_nameAndRest? {mark : Char} {text name rest : List Char}
    (found : nameAndRest? mark text = some (name, rest)) :
    Text.cut mark text = some (name, rest) := by
  unfold nameAndRest? at found
  split at found
  · rename_i cut
    split at found
    · cases found
    · cases found
      exact cut
  · cases found

theorem memberAfter?_eq_some {kind : MemberKind} {after : List Char × List Char}
    {target : PointTarget} (found : memberAfter? kind after = some target) :
    match kind with
    | .field => ∃ name desc, nameAndRest? ':' after.2 = some (name, desc) ∧
        target = .member .field (String.ofList after.1) (String.ofList name) (String.ofList desc)
    | .method => ∃ name rest, nameAndRest? '(' after.2 = some (name, rest) ∧
        target = .member .method (String.ofList after.1)
          (String.ofList (Text.trim Text.isBlank name)) (String.ofList ('(' :: rest)) := by
  cases kind <;> simp only [memberAfter?, Option.map_eq_some_iff, Prod.exists] at found <;>
    obtain ⟨name, rest, cut, same⟩ := found <;> exact ⟨name, rest, cut, same.symm⟩

theorem eq_of_memberAfter? {kind other : MemberKind} {after : List Char × List Char}
    {owner name desc : String}
    (found : memberAfter? kind after = some (.member other owner name desc)) :
    other = kind ∧ owner = String.ofList after.1 := by
  have shaped := memberAfter?_eq_some found
  cases kind <;> obtain ⟨_, _, -, same⟩ := shaped <;> cases same <;> exact ⟨rfl, rfl⟩

theorem member?_eq_some {kind : MemberKind} {text : List Char} {target : PointTarget}
    (found : member? kind text = some target) :
    (∃ after, objectOwner? text = some after ∧ memberAfter? kind after = some target) ∨
      ∃ after, dottedOwner? text = some after ∧ memberAfter? kind after = some target := by
  rw [member?, Option.or_eq_some_iff] at found
  exact found.imp Option.bind_eq_some_iff.mp fun other => Option.bind_eq_some_iff.mp other.2

end PointTarget

open PointTarget

/-- A reference in the form that maps have for members, `Lowner;name:desc` or
`Lowner;name(desc)ret`, which is also a target of an injection point. A method is not one
with a star. -/
structure FullReference (kind : MemberKind) (text owner name desc : String) : Prop where
  spelled : text = match kind with
    | .field => WrittenMember.fieldText ⟨some owner, name, some desc⟩
    | .method => WrittenMember.methodText ⟨some owner, name, some desc⟩
  shape : PointTarget.ofText text = .member kind owner name desc
  tame : kind = .method → Scope.isWild text = false

namespace FullReference

variable {kind : MemberKind} {text owner name desc : String}

theorem toList_field (full : FullReference .field text owner name desc) :
    text.toList = 'L' :: owner.toList ++ ';' :: (name.toList ++ ':' :: desc.toList) := by
  rw [full.spelled]
  simp [WrittenMember.fieldText, WrittenMember.ownerText]

theorem toList_method (full : FullReference .method text owner name desc) :
    text.toList = 'L' :: owner.toList ++ ';' :: (name.toList ++ desc.toList) := by
  rw [full.spelled]
  simp [WrittenMember.methodText, WrittenMember.ownerText]

theorem member? (full : FullReference kind text owner name desc) :
    PointTarget.member? kind text.toList = some (.member kind owner name desc) := by
  have shape := full.shape
  unfold PointTarget.ofText at shape
  dsimp only at shape
  split at shape
  · rename_i found
    subst shape
    -- Fields are tried before methods; what either reader finds is of its own kind.
    have same {other : MemberKind}
        (found : PointTarget.member? other text.toList = some (.member kind owner name desc)) :
        other = kind := by
      rcases member?_eq_some found with ⟨_, -, after⟩ | ⟨_, -, after⟩ <;>
        exact (eq_of_memberAfter? after).1.symm
    rcases Option.or_eq_some_iff.mp found with first | ⟨_, second⟩
    · rwa [same first] at first
    · rwa [same second] at second
  · split at shape <;> cases shape

/-- The owner is the one between `L` and `;`: the dotted form would need a dot in it. -/
theorem object (full : FullReference kind text owner name desc) :
    ∃ after, objectOwner? text.toList = some (owner.toList, after) ∧
      memberAfter? kind (owner.toList, after) = some (.member kind owner name desc) := by
  obtain ⟨rest, form⟩ : ∃ rest, text.toList = 'L' :: owner.toList ++ ';' :: rest := by
    cases kind with
    | field => exact ⟨_, full.toList_field⟩
    | method => exact ⟨_, full.toList_method⟩
  rcases member?_eq_some full.member? with
    ⟨⟨front, after⟩, read, found⟩ | ⟨⟨front, after⟩, read, found⟩
  · obtain ⟨-, rfl⟩ := eq_of_memberAfter? found
    rw [String.toList_ofList]
    exact ⟨after, read, found⟩
  · obtain ⟨-, rfl⟩ := eq_of_memberAfter? found
    have cut : Text.cut '.' text.toList = some (front, after) := by
      unfold dottedOwner? at read
      split at read
      · rename_i cut
        cases read
        exact cut
      · cases read
    rw [Text.eq_of_cut cut, String.toList_ofList] at form
    have fronts := congrArg (List.take (front.length + 1)) form
    have dotted : '.' ∈ 'L' :: front := by
      have : front ++ ['.'] = 'L' :: front := by
        simpa [List.take_append, List.take_of_length_le] using fronts
      rw [← this]
      simp
    exact absurd dotted (by simp [Text.not_mem_of_cut cut])

theorem read_field (full : FullReference .field text owner name desc) :
    WrittenMember.ofField text = ⟨some owner, name, some desc⟩ := by
  obtain ⟨after, read, found⟩ := full.object
  obtain ⟨first, rest, cut, same⟩ := memberAfter?_eq_some found
  simp only [PointTarget.member.injEq, true_and] at same
  obtain ⟨-, rfl, rfl⟩ := same
  rw [WrittenMember.ofField, cutOwner_of_objectOwner? read]
  dsimp only
  rw [cut_of_nameAndRest? cut, String.ofList_toList]

theorem read_method (full : FullReference .method text owner name desc) :
    Scope.methodReference text = ⟨some owner, name, some desc⟩ := by
  obtain ⟨after, read, found⟩ := full.object
  obtain ⟨first, rest, cut, same⟩ := memberAfter?_eq_some found
  simp only [PointTarget.member.injEq, true_and] at same
  obtain ⟨-, -, rfl⟩ := same
  have cut : Text.cut '(' after = some (first, rest) := cut_of_nameAndRest? cut
  -- A target may have blanks around its name, the reference has none.
  have bare : first = name.toList := by
    have form := full.toList_method
    rw [eq_of_objectOwner? read, Text.eq_of_cut cut, String.toList_ofList] at form
    simpa using form
  rw [bare] at cut
  rw [Scope.methodReference, Scope.trimStars_of_tame (full.tame rfl), WrittenMember.ofMethod,
    cutOwner_of_objectOwner? read]
  simp only [cut, String.ofList_toList]

end FullReference

end ArchiveRemap.Mixin
