import ArchiveRemap.RenameTable.Basic
import ArchiveRemap.Symbol.Reference

/-!
References written and read again. The owner may be left out, and a reader knows it by an `L`
in front and the next `;`. Both may come from elsewhere: a name may start with an `L`, and the
classes of a descriptor end with `;`. So a reference without its owner is sometimes read with
one that nobody wrote.
-/

namespace ArchiveRemap.WrittenMember

def text (kind : MemberKind) (reference : WrittenMember) : String :=
  match kind with
  | .field => reference.fieldText
  | .method => reference.methodText

def ofText (kind : MemberKind) (text : String) : WrittenMember :=
  match kind with
  | .field => ofField text
  | .method => ofMethod text

/-! The owner. -/

theorem cutOwner_of_owned {owner rest : List Char} (plain : ';' ∉ owner) :
    cutOwner ('L' :: owner ++ ';' :: rest) = (some (String.ofList owner), rest) := by
  have body : Text.dropHead? ['L'] ('L' :: owner ++ ';' :: rest) = some (owner ++ ';' :: rest) :=
    Text.dropHead?_eq_some_iff.mpr rfl
  rw [cutOwner, body, Option.bind_some, Text.cut_append plain]

/-- A text without a leading `L`, or without a `;`, is taken to have no owner. -/
theorem cutOwner_of_bare {text : List Char} (bare : text.head? ≠ some 'L' ∨ ';' ∉ text) :
    cutOwner text = (none, text) := by
  cases head : Text.dropHead? ['L'] text with
  | none => rw [cutOwner, head, Option.bind_none]
  | some body =>
      have form := Text.dropHead?_eq_some_iff.mp head
      have free : ';' ∉ body := by
        rcases bare with other | absent
        · exact absurd (by rw [form]; rfl) other
        · exact fun member => absent (form ▸ List.mem_append_right _ member)
      rw [cutOwner, head, Option.bind_some, Text.cut_eq_none_iff.mpr free]

/-- Any other text is taken to have one. -/
theorem isSome_cutOwner {text : List Char} (first : text.head? = some 'L') (ended : ';' ∈ text) :
    (cutOwner text).1.isSome = true := by
  obtain ⟨body, rfl⟩ := List.head?_eq_some_iff.mp first
  have inside : ';' ∈ body := by simpa using ended
  have head : Text.dropHead? ['L'] ('L' :: body) = some body :=
    Text.dropHead?_eq_some_iff.mpr rfl
  rw [cutOwner, head, Option.bind_some]
  cases cut : Text.cut ';' body with
  | none => exact absurd inside (Text.cut_eq_none_iff.mp cut)
  | some parts => rfl

theorem owner_ofText (kind : MemberKind) (text : String) :
    (ofText kind text).owner = (cutOwner text.toList).1 := by
  cases kind <;> simp only [ofText, ofField, ofMethod] <;> split <;> rfl

/-! The name and the descriptor behind it. -/

/-- What follows the owner. -/
def memberText (kind : MemberKind) (name desc : List Char) : List Char :=
  match kind with
  | .field => name ++ ':' :: desc
  | .method => name ++ desc

theorem toList_text_of_owned (kind : MemberKind) (owner name desc : String) :
    (text kind ⟨some owner, name, some desc⟩).toList =
      'L' :: owner.toList ++ ';' :: memberText kind name.toList desc.toList := by
  cases kind <;> simp [text, fieldText, methodText, ownerText, memberText]

theorem toList_text_of_bare (kind : MemberKind) (name desc : String) :
    (text kind ⟨none, name, some desc⟩).toList = memberText kind name.toList desc.toList := by
  cases kind <;> simp [text, fieldText, methodText, ownerText, memberText]

theorem ofText_of_cutOwner {kind : MemberKind} {text name desc : String} {owner : Option String}
    (cut : cutOwner text.toList = (owner, memberText kind name.toList desc.toList))
    (colon : ':' ∉ name.toList) (parenthesis : '(' ∉ name.toList)
    (opened : kind = .method → desc.toList.head? = some '(') :
    ofText kind text = ⟨owner, name, some desc⟩ := by
  cases kind with
  | field =>
      rw [ofText, ofField, cut]
      simp only [memberText, Text.cut_append colon, String.ofList_toList]
  | method =>
      obtain ⟨after, form⟩ := List.head?_eq_some_iff.mp (opened rfl)
      rw [ofText, ofMethod, cut]
      simp only [memberText, form, Text.cut_append parenthesis, String.ofList_toList]
      rw [← form, String.ofList_toList]

variable {kind : MemberKind} {owner : Option String} {name desc : String}

theorem head?_memberText (named : name ≠ "") :
    (memberText kind name.toList desc.toList).head? = name.toList.head? := by
  cases form : name.toList with
  | nil => exact absurd (String.toList_eq_nil_iff.mp form) named
  | cons first rest => cases kind <;> rfl

theorem mem_memberText (plain : ';' ∉ name.toList) :
    ';' ∈ memberText kind name.toList desc.toList ↔ ';' ∈ desc.toList := by
  cases kind <;> simp [memberText, plain]

/-- A reference is read back as it was written exactly when it names its owner, or its name does
not start with an `L`, or no class stands in its descriptor. -/
theorem ofText_text_iff (unended : ∀ text ∈ owner, ';' ∉ text.toList) (named : name ≠ "")
    (plain : ∀ mark ∈ [';', ':', '(', '*'], mark ∉ name.toList)
    (opened : kind = .method → desc.toList.head? = some '(') :
    ofText kind (text kind ⟨owner, name, some desc⟩) = ⟨owner, name, some desc⟩ ↔
      owner.isSome = true ∨ name.toList.head? ≠ some 'L' ∨ ';' ∉ desc.toList := by
  have whole : ';' ∉ name.toList := plain _ (by decide)
  have read {text : String} (cut : cutOwner text.toList =
      (owner, memberText kind name.toList desc.toList)) :
      ofText kind text = ⟨owner, name, some desc⟩ :=
    ofText_of_cutOwner cut (plain _ (by decide)) (plain _ (by decide)) opened
  cases owner with
  | some owner =>
      simp only [Option.isSome_some, true_or, iff_true]
      apply read
      rw [toList_text_of_owned, cutOwner_of_owned (unended owner rfl), String.ofList_toList]
  | none =>
      have written := toList_text_of_bare kind name desc
      constructor
      · intro back
        refine .inr (Decidable.not_and_iff_not_or_not.mp fun ⟨first, ended⟩ => ?_)
        rw [← head?_memberText named, ← written] at first
        rw [← mem_memberText whole, ← written] at ended
        have foreign := isSome_cutOwner first ended
        rw [← owner_ofText, back] at foreign
        cases foreign
      · intro held
        apply read
        rw [written]
        apply cutOwner_of_bare
        rw [head?_memberText named, mem_memberText whole]
        exact held.resolve_left nofun

end ArchiveRemap.WrittenMember
