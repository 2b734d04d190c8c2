import ArchiveRemap.Mixin.PointTarget
import ArchiveRemap.Proofs.Symbol.Reference
import ArchiveRemap.Proofs.Tiny.Line

/-!
How the target of an injection point is read when it names a member of a class. With the owner
between `L` and `;` the member is read as it was meant. With the owner in dotted form the target
is cut at its first dot: the first package is taken for the class, and the rest of the owner
for a part of the name. An `L` in front may even open an owner that ends at a `;` in the name.
-/

namespace ArchiveRemap

theorem Text.trim_of_dense {drop : Char → Bool} {text : List Char}
    (dense : ∀ c ∈ text, drop c = false) : Text.trim drop text = text := by
  have kept : ∀ part : List Char, (∀ c ∈ part, drop c = false) → part.dropWhile drop = part := by
    intro part all
    cases part with
    | nil => rfl
    | cons c rest => simp [List.dropWhile, all c]
  rw [trim, trimStart, kept text dense, trimEnd, kept _ (by simpa using dense),
    List.reverse_reverse]

theorem Text.cut_append_of_free {mark : Char} {front : List Char} (free : mark ∉ front)
    (back : List Char) : Text.cut mark (front ++ back) =
      (Text.cut mark back).map fun (before, after) => (front ++ before, after) := by
  induction front with
  | nil => simp
  | cons c rest ih =>
      rw [List.mem_cons, not_or] at free
      rw [List.cons_append, cut, if_neg (Ne.symm free.1), ih free.2, Option.map_map]
      rfl

namespace Mixin

/-! What follows an owner. -/

namespace PointTarget

/-- The mark between a name and its descriptor. -/
def markOf : MemberKind → Char
  | .field => ':'
  | .method => '('

/-- A descriptor, from what follows the mark. -/
def descOf (kind : MemberKind) (body : List Char) : String :=
  match kind with
  | .field => String.ofList body
  | .method => String.ofList ('(' :: body)

/-- A name, from what comes before the mark. -/
def nameOf (kind : MemberKind) (front : List Char) : String :=
  match kind with
  | .field => String.ofList front
  | .method => String.ofList (Text.trim Text.isBlank front)

/-- A text in which neither mark stands. -/
def Unmarked (text : List Char) : Prop := ∀ kind, markOf kind ∉ text

theorem memberAfter?_eq (kind : MemberKind) (owner after : List Char) :
    memberAfter? kind (owner, after) = (nameAndRest? (markOf kind) after).map fun (front, body) =>
      .member kind (String.ofList owner) (nameOf kind front) (descOf kind body) := by
  cases kind <;> rfl

theorem memberAfter?_of_unmarked {after : List Char} (unmarked : Unmarked after)
    (kind : MemberKind) (owner : List Char) : memberAfter? kind (owner, after) = none := by
  have cut := Text.cut_eq_none_iff.mpr (unmarked kind)
  rw [memberAfter?_eq, nameAndRest?, cut]
  rfl

variable {kind : MemberKind} {front body : List Char}

/-- A member is read only by the reader of its kind. -/
theorem memberAfter?_of_other {other : MemberKind} (apart : other ≠ kind)
    (before : Unmarked front) (behind : Unmarked body) (owner : List Char) :
    memberAfter? other (owner, front ++ markOf kind :: body) = none := by
  have different : markOf other ≠ markOf kind := by
    cases other <;> cases kind <;> first | exact absurd rfl apart | decide
  have cut : Text.cut (markOf other) (front ++ markOf kind :: body) = none :=
    Text.cut_eq_none_iff.mpr (by simp [before other, behind other, different])
  rw [memberAfter?_eq, nameAndRest?, cut]
  rfl

theorem memberAfter?_of_marked (before : Unmarked front) (there : body ≠ [])
    (owner : List Char) :
    memberAfter? kind (owner, front ++ markOf kind :: body) =
      if front = [] ∨ '\n' ∈ body then none
      else some (.member kind (String.ofList owner) (nameOf kind front) (descOf kind body)) := by
  rw [memberAfter?_eq, nameAndRest?, Text.cut_append (before kind)]
  by_cases nameless : front = []
  · simp [nameless]
  · by_cases broken : '\n' ∈ body <;> simp [nameless, there, broken]

/-! Owners in both forms. -/

theorem objectOwner?_of_owned {owner : List Char} (there : owner ≠ []) (unended : ';' ∉ owner)
    (rest : List Char) : objectOwner? ('L' :: owner ++ ';' :: rest) = some (owner, rest) := by
  have head : Text.dropHead? ['L'] ('L' :: owner ++ ';' :: rest) = some (owner ++ ';' :: rest) :=
    Text.dropHead?_eq_some_iff.mpr rfl
  obtain ⟨c, more, rfl⟩ := List.exists_cons_of_ne_nil there
  rw [objectOwner?, head, Option.bind_some, Text.cut_append unended]

theorem objectOwner?_of_head {text : List Char} (other : text.head? ≠ some 'L') :
    objectOwner? text = none := by
  have head : Text.dropHead? ['L'] text = none := by
    cases found : Text.dropHead? ['L'] text with
    | none => rfl
    | some body => exact absurd (by rw [Text.dropHead?_eq_some_iff.mp found]; rfl) other
  rw [objectOwner?, head, Option.bind_none]

/-- Behind an `L` a dot does not end the owner, the next `;` does. -/
theorem objectOwner?_of_dotted {first : List Char} (unended : ';' ∉ first) (rest : List Char) :
    objectOwner? ('L' :: first ++ '.' :: rest) =
      (Text.cut ';' rest).map fun (front, after) => (first ++ '.' :: front, after) := by
  cases cut : Text.cut ';' rest with
  | none =>
      have free : ';' ∉ first ++ '.' :: rest := by
        simp [unended, Text.cut_eq_none_iff.mp cut]
      have head : Text.dropHead? ['L'] ('L' :: first ++ '.' :: rest) =
          some (first ++ '.' :: rest) := Text.dropHead?_eq_some_iff.mpr rfl
      rw [objectOwner?, head, Option.bind_some, Text.cut_eq_none_iff.mpr free]
      rfl
  | some parts =>
      obtain ⟨front, after⟩ := parts
      have form : 'L' :: first ++ '.' :: rest = 'L' :: (first ++ '.' :: front) ++ ';' :: after := by
        rw [Text.eq_of_cut cut]
        simp
      rw [form, objectOwner?_of_owned (by simp) (by simp [unended, Text.not_mem_of_cut cut])]
      rfl

theorem dottedOwner?_of_dotted {first : List Char} (there : first ≠ []) (undotted : '.' ∉ first)
    (rest : List Char) : dottedOwner? (first ++ '.' :: rest) = some (first, rest) := by
  obtain ⟨c, more, rfl⟩ := List.exists_cons_of_ne_nil there
  rw [dottedOwner?, Text.cut_append undotted]

theorem dottedOwner?_of_undotted {text : List Char} (undotted : '.' ∉ text) :
    dottedOwner? text = none := by
  rw [dottedOwner?, Text.cut_eq_none_iff.mpr undotted]

/-! Shapes. -/

/-- A target that only the reader of one kind can read as a member. -/
theorem ofText_of_kind {text : String} {kind : MemberKind} {read : Option PointTarget}
    (own : member? kind text.toList = read)
    (others : ∀ other, other ≠ kind → member? other text.toList = none)
    (unopened : text.toList.head? ≠ some '(') : ofText text = read.getD .other := by
  have found : (member? .field text.toList).or (member? .method text.toList) = read := by
    cases kind with
    | field => rw [own, others .method nofun, Option.or_none]
    | method => rw [own, others .field nofun, Option.none_or]
  rw [ofText, found]
  cases read with
  | none => exact if_neg unopened
  | some target => rfl

end PointTarget

open PointTarget

/-- A member with the class that it is in, segment by segment. -/
structure QualifiedMember where
  kind : MemberKind
  segments : List String
  name : String
  desc : String

namespace QualifiedMember

/-- The class in internal form. -/
def owner (member : QualifiedMember) : String := "/".intercalate member.segments

/-- The spelling with the class between `L` and `;`. -/
def objectForm (member : QualifiedMember) : String :=
  WrittenMember.text member.kind ⟨some member.owner, member.name, some member.desc⟩

/-- The spelling with dots between all parts. -/
def dottedForm (member : QualifiedMember) : String :=
  WrittenMember.text member.kind
    ⟨none, ".".intercalate (member.segments ++ [member.name]), some member.desc⟩

/-- The descriptor, without the parenthesis that a method's starts with. -/
def body (member : QualifiedMember) : List Char :=
  match member.kind with
  | .field => member.desc.toList
  | .method => member.desc.toList.tail

/-- Names that a class and its member can have, and a descriptor over such classes. -/
structure Plain (member : QualifiedMember) : Prop where
  packaged : member.segments ≠ []
  segments : ∀ segment ∈ member.segments,
    segment ≠ "" ∧ ∀ mark ∈ ['.', ';', ':', '(', '/'], mark ∉ segment.toList
  named : member.name ≠ ""
  name : ∀ mark ∈ ['.', ':', '('], mark ∉ member.name.toList
  dense : ∀ c ∈ member.name.toList, Text.isBlank c = false
  opened : member.kind = .method → member.desc.toList.head? = some '('
  described : member.body ≠ []
  desc : ∀ mark ∈ ['.', ':', '('], mark ∉ member.body

/-- The first segment starts with an `L`, and a `;` stands in the name before its last
character. -/
def Misleading (member : QualifiedMember) : Prop :=
  (∃ first ∈ member.segments.head?, first.toList.head? = some 'L') ∧
    ';' ∈ member.name.toList.dropLast

/-- The segments behind the first one, as they stand in front of the name. -/
def packages (segments : List String) : List Char :=
  segments.flatMap fun segment => segment.toList ++ ['.']

theorem toList_intercalate_dots (segments : List String) (name : String) :
    (".".intercalate (segments ++ [name])).toList = packages segments ++ name.toList := by
  induction segments with
  | nil => simp [packages]
  | cons segment rest ih =>
      rw [List.cons_append, String.intercalate_cons_of_ne_nil (by simp)]
      simp [ih, packages]

variable {member : QualifiedMember}

namespace Plain

variable (plain : member.Plain)
include plain

theorem memberText_eq (name : List Char) :
    WrittenMember.memberText member.kind name member.desc.toList =
      name ++ markOf member.kind :: member.body := by
  have opened := plain.opened
  obtain ⟨kind, segments, given, desc⟩ := member
  cases kind with
  | field => rfl
  | method =>
      obtain ⟨rest, form⟩ := List.head?_eq_some_iff.mp (opened rfl)
      simp only [WrittenMember.memberText, body, form, markOf, List.tail_cons]

theorem descOf_body : descOf member.kind member.body = member.desc := by
  have opened := plain.opened
  obtain ⟨kind, segments, given, desc⟩ := member
  cases kind with
  | field => exact String.ofList_toList
  | method =>
      obtain ⟨rest, form⟩ := List.head?_eq_some_iff.mp (opened rfl)
      simp only [descOf, body, form, List.tail_cons]
      rw [← form, String.ofList_toList]

theorem feed_mem_body : '\n' ∈ member.body ↔ '\n' ∈ member.desc.toList := by
  have opened := plain.opened
  obtain ⟨kind, segments, given, desc⟩ := member
  cases kind with
  | field => exact Iff.rfl
  | method =>
      obtain ⟨rest, form⟩ := List.head?_eq_some_iff.mp (opened rfl)
      simp [body, form]

theorem toList_objectForm : member.objectForm.toList =
    'L' :: member.owner.toList ++
      ';' :: (member.name.toList ++ markOf member.kind :: member.body) := by
  rw [objectForm, WrittenMember.toList_text_of_owned, plain.memberText_eq]

theorem toList_dottedForm {first : String} {more : List String}
    (split : member.segments = first :: more) : member.dottedForm.toList =
      first.toList ++ '.' :: (packages more ++ member.name.toList ++
        markOf member.kind :: member.body) := by
  rw [dottedForm, WrittenMember.toList_text_of_bare, plain.memberText_eq,
    toList_intercalate_dots, split]
  simp [packages]

theorem unmarked_name : Unmarked member.name.toList := fun kind =>
  plain.name _ (by cases kind <;> decide)

theorem unmarked_body : Unmarked member.body := fun kind =>
  plain.desc _ (by cases kind <;> decide)

theorem nameOf_name : nameOf member.kind member.name.toList = member.name := by
  cases member.kind with
  | field => exact String.ofList_toList
  | method => rw [nameOf, Text.trim_of_dense plain.dense, String.ofList_toList]

/-! Reading the object form. -/

theorem not_mem_owner {mark : Char} (apart : mark ≠ '/')
    (listed : mark ∈ ['.', ';', ':', '(', '/']) : mark ∉ member.owner.toList := by
  intro inside
  rw [owner, String.toList_intercalate] at inside
  rcases Text.mem_intercalate inside with same | ⟨_, part, there⟩
  · exact apart same
  · obtain ⟨segment, given, rfl⟩ := List.mem_map.mp part
    exact (plain.segments segment given).2 mark listed there

theorem owner_ne_nil : member.owner.toList ≠ [] := by
  obtain ⟨first, more, split⟩ := List.exists_cons_of_ne_nil plain.packaged
  have there := (plain.segments first (split ▸ List.mem_cons_self)).1
  rw [owner, split]
  cases more with
  | nil => simpa using there
  | cons next rest => simp [String.intercalate_cons_of_ne_nil, there]

/-- What is read after an owner that ends in front of the name. -/
theorem memberAfter?_name (owner : List Char) :
    memberAfter? member.kind (owner, member.name.toList ++ markOf member.kind :: member.body) =
      if '\n' ∈ member.body then none
      else some (.member member.kind (String.ofList owner) member.name member.desc) := by
  rw [memberAfter?_of_marked plain.unmarked_name plain.described, plain.nameOf_name,
    plain.descOf_body]
  simp [plain.named]

theorem ofText_objectForm : PointTarget.ofText member.objectForm =
    if '\n' ∈ member.body then .other
    else .member member.kind member.owner member.name member.desc := by
  have text := plain.toList_objectForm
  have object : objectOwner? member.objectForm.toList =
      some (member.owner.toList, member.name.toList ++ markOf member.kind :: member.body) := by
    rw [text]
    exact objectOwner?_of_owned plain.owner_ne_nil (plain.not_mem_owner (by decide) (by decide)) _
  have undotted : '.' ∉ member.objectForm.toList := by
    have mark : '.' ≠ markOf member.kind := by cases member.kind <;> decide
    simp [text, plain.not_mem_owner, plain.name, plain.desc, mark]
  have read : ∀ kind, member? kind member.objectForm.toList =
      memberAfter? kind
        (member.owner.toList, member.name.toList ++ markOf member.kind :: member.body) := by
    intro kind
    rw [member?, object, dottedOwner?_of_undotted undotted, Option.bind_some, Option.bind_none,
      Option.or_none]
  rw [ofText_of_kind ((read _).trans (plain.memberAfter?_name _)) (fun other apart =>
    (read other).trans (memberAfter?_of_other apart plain.unmarked_name plain.unmarked_body _))
    (by simp [text]), String.ofList_toList]
  split <;> rfl

/-! Reading the dotted form. -/

variable {first : String} {more : List String} (split : member.segments = first :: more)
include split

theorem unmarked_front : Unmarked (packages more ++ member.name.toList) := by
  intro kind inside
  rcases List.mem_append.mp inside with before | own
  · obtain ⟨segment, given, there⟩ := List.mem_flatMap.mp before
    rcases List.mem_append.mp there with part | dot
    · refine (plain.segments segment (split ▸ List.mem_cons_of_mem _ given)).2 (markOf kind) ?_ part
      cases kind <;> decide
    · cases kind <;> exact absurd (List.mem_singleton.mp dot) (by decide)
  · exact plain.unmarked_name kind own

theorem unended_packages : ';' ∉ packages more := by
  intro inside
  obtain ⟨segment, given, there⟩ := List.mem_flatMap.mp inside
  rcases List.mem_append.mp there with part | dot
  · exact (plain.segments segment (split ▸ List.mem_cons_of_mem _ given)).2 ';' (by decide) part
  · exact absurd (List.mem_singleton.mp dot) (by decide)

theorem first_free {mark : Char} (listed : mark ∈ ['.', ';', ':', '(', '/']) :
    mark ∉ first.toList :=
  (plain.segments first (split ▸ List.mem_cons_self)).2 mark listed

theorem first_ne_nil : first.toList ≠ [] := fun empty =>
  (plain.segments first (split ▸ List.mem_cons_self)).1 (String.toList_eq_nil_iff.mp empty)

/-- Behind an `L`, a name with a `;` in it is cut there. -/
theorem objectOwner?_of_ended {tail front back : List Char} (lead : first.toList = 'L' :: tail)
    (ended : member.name.toList = front ++ ';' :: back) (free : ';' ∉ front) :
    objectOwner? member.dottedForm.toList =
      some (tail ++ '.' :: (packages more ++ front),
        back ++ markOf member.kind :: member.body) := by
  have unended : ';' ∉ tail := fun inside =>
    plain.first_free split (by decide) (lead ▸ List.mem_cons_of_mem _ inside)
  have cut : Text.cut ';' (packages more ++ member.name.toList ++
      markOf member.kind :: member.body) =
        some (packages more ++ front, back ++ markOf member.kind :: member.body) := by
    have form : packages more ++ member.name.toList ++ markOf member.kind :: member.body =
        (packages more ++ front) ++ ';' :: (back ++ markOf member.kind :: member.body) := by
      simp [ended]
    rw [form, Text.cut_append (by simp [free, plain.unended_packages split])]
  rw [plain.toList_dottedForm split, lead, objectOwner?_of_dotted unended, cut, Option.map_some]

/-- With no `;` in the name an owner behind an `L` ends in the descriptor, where no mark is
left. -/
theorem objectRead_of_unended (unended : ';' ∉ member.name.toList) (kind : MemberKind) :
    (objectOwner? member.dottedForm.toList).bind (memberAfter? kind) = none := by
  rw [plain.toList_dottedForm split]
  by_cases lead : first.toList.head? = some 'L'
  · obtain ⟨tail, form⟩ := List.head?_eq_some_iff.mp lead
    have free : ';' ∉ tail := fun inside =>
      plain.first_free split (by decide) (form ▸ List.mem_cons_of_mem _ inside)
    have before : ';' ∉ packages more ++ member.name.toList ++ [markOf member.kind] := by
      have mark : ';' ≠ markOf member.kind := by cases member.kind <;> decide
      simp [unended, plain.unended_packages split, mark]
    have regroup : packages more ++ member.name.toList ++ markOf member.kind :: member.body =
        packages more ++ member.name.toList ++ [markOf member.kind] ++ member.body := by simp
    rw [form, objectOwner?_of_dotted free, regroup, Text.cut_append_of_free before]
    cases cut : Text.cut ';' member.body with
    | none => rfl
    | some parts =>
        refine memberAfter?_of_unmarked (fun kind inside => ?_) kind _
        refine plain.unmarked_body kind ?_
        rw [Text.eq_of_cut cut]
        exact List.mem_append_right _ (List.mem_cons_of_mem _ inside)
  · rw [objectOwner?_of_head, Option.bind_none]
    obtain ⟨c, rest, form⟩ := List.exists_cons_of_ne_nil (plain.first_ne_nil split)
    simpa [form] using lead

theorem objectOwner?_of_unled (lead : first.toList.head? ≠ some 'L') :
    objectOwner? member.dottedForm.toList = none := by
  obtain ⟨c, rest, form⟩ := List.exists_cons_of_ne_nil (plain.first_ne_nil split)
  rw [plain.toList_dottedForm split]
  exact objectOwner?_of_head (by simpa [form] using lead)

/-- What is read behind an `L` of a name that is cut at a `;` in it. -/
theorem objectRead_of_ended {tail front back : List Char} (lead : first.toList = 'L' :: tail)
    (ended : member.name.toList = front ++ ';' :: back) (free : ';' ∉ front) (kind : MemberKind) :
    (objectOwner? member.dottedForm.toList).bind (memberAfter? kind) =
      if kind ≠ member.kind ∨ back = [] ∨ '\n' ∈ member.body then none
      else some (.member member.kind (String.ofList (tail ++ '.' :: (packages more ++ front)))
        (nameOf member.kind back) member.desc) := by
  have marks : Unmarked back := fun kind here => plain.unmarked_name kind
    (ended ▸ List.mem_append_right _ (List.mem_cons_of_mem _ here))
  rw [plain.objectOwner?_of_ended split lead ended free, Option.bind_some]
  by_cases own : kind = member.kind
  · rw [own, memberAfter?_of_marked marks plain.described, plain.descOf_body]
    simp
  · rw [if_pos (.inl own)]
    exact memberAfter?_of_other own marks plain.unmarked_body _

/-- Unless it is misleading, no owner is read behind an `L`. -/
theorem objectRead_of_straight (straight : ¬member.Misleading ∨ '\n' ∈ member.body)
    (kind : MemberKind) :
    (objectOwner? member.dottedForm.toList).bind (memberAfter? kind) = none := by
  by_cases lead : first.toList.head? = some 'L'
  · by_cases inside : ';' ∈ member.name.toList
    · obtain ⟨front, back, ended, free⟩ := List.eq_append_cons_of_mem inside
      obtain ⟨tail, form⟩ := List.head?_eq_some_iff.mp lead
      rw [plain.objectRead_of_ended split form ended free, if_pos]
      rcases straight with tame | broken
      · refine .inr (.inl (Classical.byContradiction fun there => tame ?_))
        refine ⟨⟨first, by rw [split]; rfl, lead⟩, ?_⟩
        rw [ended, List.dropLast_append_cons, List.dropLast_cons_of_ne_nil there]
        simp
      · exact .inr (.inr broken)
    · exact plain.objectRead_of_unended split inside kind
  · rw [plain.objectOwner?_of_unled split lead, Option.bind_none]

theorem dottedRead (kind : MemberKind) :
    member? kind member.dottedForm.toList =
      ((objectOwner? member.dottedForm.toList).bind (memberAfter? kind)).or
        (memberAfter? kind (first.toList, packages more ++ member.name.toList ++
          markOf member.kind :: member.body)) := by
  have dotted : dottedOwner? member.dottedForm.toList = some (first.toList,
      packages more ++ member.name.toList ++ markOf member.kind :: member.body) := by
    rw [plain.toList_dottedForm split]
    exact dottedOwner?_of_dotted (plain.first_ne_nil split) (plain.first_free split (by decide)) _
  rw [member?, dotted, Option.bind_some]

theorem dottedForm_unopened : member.dottedForm.toList.head? ≠ some '(' := by
  obtain ⟨c, rest, form⟩ := List.exists_cons_of_ne_nil (plain.first_ne_nil split)
  have free : '(' ∉ first.toList := plain.first_free split (by decide)
  rw [plain.toList_dottedForm split, form]
  rw [form] at free
  simpa [eq_comm] using (not_or.mp (List.mem_cons.not.mp free)).1

/-- The first segment is taken for the class, and the others for a part of the name. -/
theorem ofText_dottedForm (straight : ¬member.Misleading ∨ '\n' ∈ member.body) :
    PointTarget.ofText member.dottedForm =
      if '\n' ∈ member.body then .other
      else .member member.kind first (nameOf member.kind (packages more ++ member.name.toList))
        member.desc := by
  have marks := plain.unmarked_front split
  have read : ∀ kind, member? kind member.dottedForm.toList = memberAfter? kind
      (first.toList, packages more ++ member.name.toList ++ markOf member.kind :: member.body) := by
    intro kind
    rw [plain.dottedRead split, plain.objectRead_of_straight split straight, Option.none_or]
  rw [ofText_of_kind ((read _).trans (memberAfter?_of_marked marks plain.described _))
    (fun other apart =>
      (read other).trans (memberAfter?_of_other apart marks plain.unmarked_body _))
    (plain.dottedForm_unopened split), plain.descOf_body, String.ofList_toList]
  by_cases broken : '\n' ∈ member.body <;> simp [broken, plain.named]

/-- A misleading name ends an owner that holds all segments, with the dots between them. -/
theorem ofText_dottedForm_of_misleading (misleading : member.Misleading)
    (whole : '\n' ∉ member.body) : ∃ owner name, '.' ∈ owner.toList ∧
      PointTarget.ofText member.dottedForm = .member member.kind owner name member.desc := by
  obtain ⟨⟨segment, given, lead⟩, inside⟩ := misleading
  rw [split, List.head?_cons, Option.mem_some] at given
  obtain ⟨front, back, ended, free⟩ := List.eq_append_cons_of_mem (List.dropLast_subset _ inside)
  obtain ⟨tail, form⟩ := List.head?_eq_some_iff.mp (given ▸ lead)
  have there : back ≠ [] := by
    rintro rfl
    rw [ended, List.dropLast_concat] at inside
    exact free inside
  have object := plain.objectRead_of_ended split form ended free
  have own := plain.dottedRead split member.kind
  rw [object, if_neg (by simp [there, whole]), Option.some_or] at own
  refine ⟨String.ofList (tail ++ '.' :: (packages more ++ front)), nameOf member.kind back,
    by simp, ofText_of_kind own (fun other apart => ?_) (plain.dottedForm_unopened split)⟩
  rw [plain.dottedRead split, object, if_pos (.inl apart), Option.none_or]
  exact memberAfter?_of_other apart (plain.unmarked_front split) plain.unmarked_body _

end Plain

end QualifiedMember

end Mixin

end ArchiveRemap
