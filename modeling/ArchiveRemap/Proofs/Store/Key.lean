import ArchiveRemap.Proofs.File.Place
import ArchiveRemap.Store.Publish

/-!
What the name of an artifact tells. The frame of a list of parts can be read back, so only a
collision of digests gives two lists one digest. A digest has a fixed length and no slash,
so the last part of the path of an artifact always shows the digest and the kind of the hop.
-/

namespace ArchiveRemap

/-! Frames. -/

theorem mod_pow_eq_of_digits {left right base : Nat} (count : Nat)
    (digits : ∀ k < count, left / base ^ k % base = right / base ^ k % base) :
    left % base ^ count = right % base ^ count := by
  induction count with
  | zero => simp [Nat.mod_one]
  | succ count ih =>
      have lower := ih fun k small => digits k (by omega)
      rw [Nat.mod_pow_succ, Nat.mod_pow_succ, lower, digits count (by omega)]

theorem lengthBytes_injective {left right : Nat} (leftFits : left < 2 ^ 64)
    (rightFits : right < 2 ^ 64) (same : lengthBytes left = lengthBytes right) :
    left = right := by
  have digits : ∀ k < 8, left / 256 ^ k % 256 = right / 256 ^ k % 256 := by
    intro k small
    have byte := List.map_inj_left.mp same k (List.mem_range.mpr small)
    have number := congrArg UInt8.toNat byte
    rwa [UInt8.toNat_ofNat', UInt8.toNat_ofNat'] at number
  have rest := mod_pow_eq_of_digits 8 digits
  have bytes : 256 ^ 8 = 2 ^ 64 := by decide
  rwa [bytes, Nat.mod_eq_of_lt leftFits, Nat.mod_eq_of_lt rightFits] at rest

theorem length_utf8 (text : String) : (Sha256.utf8 text).length = text.utf8ByteSize := rfl

theorem utf8_injective {left right : String} (same : Sha256.utf8 left = Sha256.utf8 right) :
    left = right := by
  have bytes : left.toByteArray = right.toByteArray := by
    apply ByteArray.ext
    exact Array.toList_inj.mp same
  exact String.toByteArray_inj.mp bytes

theorem framePart_append_injective {left right : String} {leftRest rightRest : List UInt8}
    (leftFits : left.utf8ByteSize < 2 ^ 64) (rightFits : right.utf8ByteSize < 2 ^ 64)
    (same : framePart left ++ leftRest = framePart right ++ rightRest) :
    left = right ∧ leftRest = rightRest := by
  simp only [framePart, List.append_assoc] at same
  obtain ⟨lengths, bodies⟩ := List.append_inj same (by simp [lengthBytes])
  have sizes := lengthBytes_injective leftFits rightFits lengths
  obtain ⟨texts, rests⟩ := List.append_inj bodies (by rw [length_utf8, length_utf8, sizes])
  exact ⟨utf8_injective texts, rests⟩

/-- The parts can be read back from their frame. -/
theorem frameParts_injective {left right : List String}
    (leftFits : ∀ part ∈ left, part.utf8ByteSize < 2 ^ 64)
    (rightFits : ∀ part ∈ right, part.utf8ByteSize < 2 ^ 64)
    (same : frameParts left = frameParts right) : left = right := by
  have filled (part : String) (rest : List String) : frameParts (part :: rest) ≠ [] := by
    intro empty
    have lengths := congrArg List.length empty
    simp [frameParts, framePart, lengthBytes] at lengths
  induction left generalizing right with
  | nil =>
      cases right with
      | nil => rfl
      | cons part rest => exact absurd same.symm (filled part rest)
  | cons part rest ih =>
      cases right with
      | nil => exact absurd same (filled part rest)
      | cons other more =>
          rw [List.forall_mem_cons] at leftFits rightFits
          obtain ⟨rfl, rests⟩ :=
            framePart_append_injective leftFits.1 rightFits.1 same
          rw [ih leftFits.2 rightFits.2 rests]

/-! Digests. -/

namespace Sha256

theorem length_hexDigest (message : List UInt8) : (hexDigest message).toList.length = 64 := by
  simp [hexDigest, hexText, digest, finish, toBytes]

theorem hexDigit_ne_slash (n : UInt8) : hexDigit n ≠ '/' := by
  have all : ∀ n : Fin 256, hexDigit (UInt8.ofFin n) ≠ '/' := by decide +kernel
  exact all n.toFin

theorem slash_not_mem_hexDigest (message : List UInt8) : '/' ∉ (hexDigest message).toList := by
  simp only [hexDigest, hexText, String.toList_ofList, List.mem_flatMap, List.mem_cons,
    List.not_mem_nil, or_false, not_exists, not_and, not_or]
  exact fun byte _ => ⟨(hexDigit_ne_slash _).symm, (hexDigit_ne_slash _).symm⟩

end Sha256

/-! Paths of artifacts. -/

namespace PathText

/-- What comes after the last slash. -/
def lastPart (path : List Char) : List Char := ((path.splitOn '/').getLast?).getD []

/-- What is added without a slash is added to the last part. -/
theorem splitOn_append_of_not_mem {tail : List Char} (plain : '/' ∉ tail) (front : List Char) :
    ∃ before, (front ++ tail).splitOn '/' = before ++ [lastPart front ++ tail] := by
  have both : ∃ before last, front.splitOn '/' = before ++ [last] ∧
      (front ++ tail).splitOn '/' = before ++ [last ++ tail] := by
    induction front with
    | nil => exact ⟨[], [], rfl, by rw [List.nil_append, List.splitOn_eq_singleton plain]; rfl⟩
    | cons c rest ih =>
        obtain ⟨before, last, split, grown⟩ := ih
        rw [List.cons_append, List.splitOn_cons_eq_if_modifyHead,
          List.splitOn_cons_eq_if_modifyHead, split, grown]
        split_ifs
        · exact ⟨[] :: before, last, rfl, rfl⟩
        · cases before with
          | nil => exact ⟨[], c :: last, rfl, rfl⟩
          | cons first others => exact ⟨(c :: first) :: others, last, rfl, rfl⟩
  obtain ⟨before, last, split, grown⟩ := both
  have same : lastPart front = last := by simp [lastPart, split]
  exact ⟨before, same.symm ▸ grown⟩

end PathText

/-- The name of what a path leads to ends as the path ends. -/
theorem FileTree.getLast?_placeOf {tree : FileTree} {path : String} {front tail : List Char}
    (whole : path.toList = front ++ tail) (plain : '/' ∉ tail) (long : 2 < tail.length) :
    (tree.placeOf path).getLast? =
      some (String.ofList (PathText.lastPart front ++ tail)) := by
  obtain ⟨before, split⟩ := PathText.splitOn_append_of_not_mem plain front
  have named (text : String) (short : text.toList.length ≤ 2) :
      String.ofList (PathText.lastPart front ++ tail) ≠ text := by
    rintro rfl
    rw [String.toList_ofList, List.length_append] at short
    omega
  rw [FileTree.placeOf, PathText.parts, whole, split, List.map_append, List.foldl_append,
    List.map_singleton, List.foldl_cons, List.foldl_nil, FileTree.lead]
  rw [if_neg, if_neg (named ".." (by decide)), List.getLast?_concat]
  simp only [Bool.or_eq_true, decide_eq_true_eq, not_or]
  exact ⟨named "" (by decide), named "." (by decide)⟩

namespace Store

variable {store : Store} {tree : FileTree} {left right : ArtifactId}

/-- What comes before the name in the path of an artifact. Only its first character matters. -/
theorem toList_pathOf (store : Store) (first : Option Char) :
    ∃ front, ∀ key : ArtifactId, key.fileName.toList.head? = first →
      (store.pathOf key).toList = front ++ key.fileName.toList := by
  have absolute (key : ArtifactId) (head : key.fileName.toList.head? = first) :
      PathText.isAbsolute key.fileName = decide (first = some '/') := by
    rw [Bool.eq_iff_iff, PathText.isAbsolute_iff, head, decide_eq_true_iff]
  by_cases stays : decide (first = some '/') || store.root = ""
  · refine ⟨[], fun key head => ?_⟩
    rw [pathOf, PathText.join, absolute key head, if_pos stays]
    rfl
  · by_cases slash : Text.endsWith ['/'] store.root.toList
    · refine ⟨store.root.toList, fun key head => ?_⟩
      rw [pathOf, PathText.join, absolute key head, if_neg stays, if_pos slash,
        String.toList_append]
    · refine ⟨(store.root ++ "/").toList, fun key head => ?_⟩
      rw [pathOf, PathText.join, absolute key head, if_neg stays, if_neg slash,
        String.toList_append]

/-- The last part of the path of an artifact ends in the kind, the digest and the suffix. -/
theorem getLast?_placeOf_pathOf (store : Store) (tree : FileTree) (key : ArtifactId) :
    ∃ front, (tree.placeOf (store.pathOf key)).getLast? =
      some (String.ofList (front ++ '-' :: key.kind.text.toList ++ '-' ::
        (key.digest.toList ++ ".json".toList))) := by
  obtain ⟨before, joined⟩ := toList_pathOf store key.fileName.toList.head?
  have whole := joined key rfl
  have split : ∃ front, (store.pathOf key).toList = front ++ ('-' :: key.kind.text.toList ++
      '-' :: (key.digest.toList ++ ".json".toList)) := by
    have label : ∃ patch, key.label =
        key.source ++ "-" ++ key.target ++ patch ++ "-" ++ key.kind.text ++ "-" := ⟨_, rfl⟩
    obtain ⟨patch, label⟩ := label
    refine ⟨before ++ (key.source ++ "-" ++ key.target ++ patch).toList, ?_⟩
    rw [whole, ArtifactId.fileName, label]
    simp [String.toList_append, List.append_assoc]
  obtain ⟨front, whole⟩ := split
  have plain : '/' ∉ '-' :: key.kind.text.toList ++ '-' ::
      (key.digest.toList ++ ".json".toList) := by
    have digest := Sha256.slash_not_mem_hexDigest (frameParts key.parts)
    have kind : '/' ∉ key.kind.text.toList := by cases key.kind <;> decide
    simp only [List.cons_append, List.mem_cons, List.mem_append, not_or]
    exact ⟨by decide, kind, by decide, digest, by decide⟩
  refine ⟨PathText.lastPart front, ?_⟩
  rw [FileTree.getLast?_placeOf whole plain (by simp; omega), List.append_assoc]

/-- What has a short name is no artifact. -/
theorem placeOf_pathOf_ne {place : Place} {name : String} (last : place.getLast? = some name)
    (short : name.toList.length < 64) (key : ArtifactId) :
    tree.placeOf (store.pathOf key) ≠ place := by
  rintro rfl
  obtain ⟨front, same⟩ := getLast?_placeOf_pathOf store tree key
  rw [last, Option.some.injEq] at same
  have digest := Sha256.length_hexDigest (frameParts key.parts)
  rw [same, String.toList_ofList] at short
  simp only [List.length_append, List.length_cons, ArtifactId.digest, partsDigest,
    digest] at short
  omega

/-- Where all names are short there is no artifact. -/
theorem file?_placeOf_pathOf (short : ∀ place ∈ tree.files.keys,
    ∃ name ∈ place.getLast?, name.toList.length < 64) (key : ArtifactId) :
    tree.file? (tree.placeOf (store.pathOf key)) = none := by
  rw [FileTree.file?, Keyed.get?_eq_none_iff]
  intro member
  obtain ⟨name, last, short⟩ := short _ member
  exact placeOf_pathOf_ne last short key rfl

/-- Artifacts in one place have one digest and are of one kind. -/
theorem digest_eq_of_placeOf_eq
    (same : tree.placeOf (store.pathOf left) = tree.placeOf (store.pathOf right)) :
    left.digest = right.digest ∧ left.kind = right.kind := by
  obtain ⟨leftFront, leftLast⟩ := getLast?_placeOf_pathOf store tree left
  obtain ⟨rightFront, rightLast⟩ := getLast?_placeOf_pathOf store tree right
  rw [same, rightLast, Option.some.injEq] at leftLast
  have chars := congrArg String.toList leftLast
  simp only [String.toList_ofList] at chars
  obtain ⟨fronts, digests⟩ := List.append_inj' chars (by
    simp only [List.length_cons, List.length_append, ArtifactId.digest, partsDigest,
      Sha256.length_hexDigest])
  rw [List.cons.injEq] at digests
  have digest := String.toList_inj.mp (List.append_cancel_right digests.2)
  refine ⟨digest.symm, ?_⟩
  have last := congrArg List.getLast? fronts
  revert last
  cases left.kind <;> cases right.kind <;> simp [HopRole.text]

/-- With an empty patch state the last part is one dash longer than without any. -/
theorem placeOf_ne_of_patch {target source input mappings classpath settings : String}
    {kind : HopRole} :
    tree.placeOf (store.pathOf
        ⟨target, source, none, input, mappings, classpath, settings, kind⟩) ≠
      tree.placeOf (store.pathOf
        ⟨target, source, some "", input, mappings, classpath, settings, kind⟩) := by
  intro same
  obtain ⟨before, joined⟩ := toList_pathOf store (source ++ "-").toList.head?
  have digest := Sha256.slash_not_mem_hexDigest
    (frameParts [target, source, "", input, mappings, classpath, settings, kind.text])
  have last (patch : Option String) (dashes : List Char) (plain : '/' ∉ dashes)
      (text : patch.getD "" = "")
      (label : (ArtifactId.label
        ⟨target, source, patch, input, mappings, classpath, settings, kind⟩).toList =
          (source ++ "-" ++ target).toList ++ (dashes ++ '-' :: kind.text.toList ++ ['-'])) :
      (tree.placeOf (store.pathOf
        ⟨target, source, patch, input, mappings, classpath, settings, kind⟩)).getLast? =
          some (String.ofList (PathText.lastPart (before ++ (source ++ "-" ++ target).toList) ++
            (dashes ++ '-' :: kind.text.toList ++ '-' :: ((partsDigest
              [target, source, "", input, mappings, classpath, settings, kind.text]).toList ++
                ".json".toList)))) := by
    have kindPlain : '/' ∉ kind.text.toList := by cases kind <;> decide
    apply FileTree.getLast?_placeOf
    · rw [joined]
      · rw [ArtifactId.fileName, String.toList_append, String.toList_append, label,
          ArtifactId.digest, ArtifactId.parts, text]
        simp
      · rw [ArtifactId.fileName, String.toList_append, String.toList_append, label]
        simp only [String.toList_append, List.append_assoc]
        cases source.toList <;> rfl
    · simp only [List.mem_append, List.mem_cons, not_or]
      exact ⟨⟨plain, by decide, kindPlain⟩, by decide, digest, by decide⟩
    · simp
      omega
  have absent := last none [] (by simp) rfl (by
    simp [ArtifactId.label, String.toList_append])
  have empty := last (some "") ['-'] (by simp) rfl (by
    simp [ArtifactId.label, String.toList_append])
  rw [same, empty, Option.some.injEq] at absent
  have lengths := congrArg (fun text => text.toList.length) absent
  simp at lengths

/-- An artifact's place and the parts of its key determine the key. -/
theorem key_eq_of_parts_eq (parts : left.parts = right.parts) (kind : left.kind = right.kind)
    (same : tree.placeOf (store.pathOf left) = tree.placeOf (store.pathOf right)) :
    left = right := by
  obtain ⟨target, source, patch, input, mappings, classpath, settings, role⟩ := left
  obtain ⟨target', source', patch', input', mappings', classpath', settings', role'⟩ := right
  simp only [ArtifactId.parts, List.cons.injEq, and_true] at parts kind
  obtain ⟨rfl, rfl, patches, rfl, rfl, rfl, rfl, -⟩ := parts
  subst kind
  cases patch with
  | none =>
      cases patch' with
      | none => rfl
      | some state =>
          simp only [Option.getD_none, Option.getD_some] at patches
          subst patches
          exact absurd same placeOf_ne_of_patch
  | some state =>
      cases patch' with
      | none =>
          simp only [Option.getD_none, Option.getD_some] at patches
          subst patches
          exact absurd same.symm placeOf_ne_of_patch
      | some state' =>
          simp only [Option.getD_some] at patches
          subst patches
          rfl

/-- Artifacts in one place have one key, if their digests do not collide. -/
theorem key_eq_of_placeOf_eq (leftFits : ∀ part ∈ left.parts, part.utf8ByteSize < 2 ^ 64)
    (rightFits : ∀ part ∈ right.parts, part.utf8ByteSize < 2 ^ 64)
    (free : left.digest = right.digest → frameParts left.parts = frameParts right.parts)
    (same : tree.placeOf (store.pathOf left) = tree.placeOf (store.pathOf right)) :
    left = right := by
  obtain ⟨digest, kind⟩ := digest_eq_of_placeOf_eq same
  exact key_eq_of_parts_eq (frameParts_injective leftFits rightFits (free digest)) kind same

end Store

end ArchiveRemap
