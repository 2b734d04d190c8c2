import ArchiveRemap.Proofs.Store.Key
import Mathlib.Data.List.Nodup
import Mathlib.Data.Set.Function

/-!
File names of artifacts. A name is a label and a digest, and both can be read off it. The
digest stands for all parts of the key, and the label tells an empty patch state from none;
so no two keys share a file, whatever dashes there are in their parts.
-/

namespace ArchiveRemap

theorem HopRole.text_injective {left right : HopRole} (same : left.text = right.text) :
    left = right := by
  cases left <;> cases right <;> simp_all [HopRole.text]

namespace ArtifactId

variable {left right : ArtifactId}

/-- No part of the key is too long for its length to be told in eight bytes. -/
def Fits (key : ArtifactId) : Prop := ∀ part ∈ key.parts, part.utf8ByteSize < 2 ^ 64

instance (key : ArtifactId) : Decidable key.Fits :=
  inferInstanceAs (Decidable (∀ part ∈ key.parts, part.utf8ByteSize < 2 ^ 64))

/-- All digests are of one length, so the end of the label is where it is. -/
theorem label_eq_and_digest_eq (same : left.fileName = right.fileName) :
    left.label = right.label ∧ left.digest = right.digest := by
  have whole := congrArg String.toList same
  simp only [fileName, String.toList_append] at whole
  obtain ⟨labels, digests⟩ := List.append_inj' (List.append_cancel_right whole) (by
    rw [digest, digest, partsDigest, partsDigest, Sha256.length_hexDigest,
      Sha256.length_hexDigest])
  exact ⟨String.toList_inj.mp labels, String.toList_inj.mp digests⟩

/-- The patch state between the names and the kind, with its dash. -/
theorem toList_label (key : ArtifactId) :
    key.label.toList = (key.source ++ "-" ++ key.target).toList ++
      ((key.patchState.map fun state => '-' :: state.toList).getD [] ++
        ("-" ++ key.kind.text ++ "-").toList) := by
  cases patch : key.patchState <;> simp [label, patch]

/-- Of an absent and an empty patch state only the second has a dash. -/
theorem patchState_eq {patch other : Option String} (same : patch.getD "" = other.getD "")
    (dashes : (patch.map fun state => '-' :: state.toList).getD [] =
      (other.map fun state => '-' :: state.toList).getD []) : patch = other := by
  cases patch <;> cases other <;> simp_all

theorem eq_of_parts_eq (parts : left.parts = right.parts) (labels : left.label = right.label) :
    left = right := by
  have chars := congrArg String.toList labels
  rw [toList_label, toList_label] at chars
  simp only [ArtifactId.parts, List.cons.injEq, and_true] at parts
  obtain ⟨target, source, patches, input, mappings, classpath, settings, kinds⟩ := parts
  have kind := HopRole.text_injective kinds
  rw [source, target, kind] at chars
  have patch := patchState_eq patches (List.append_cancel_right (List.append_cancel_left chars))
  cases left
  cases right
  simp_all

/-- While nothing that is digested collides, keys with one file name are one key, and lists of
parts with one digest are one list. -/
theorem fileName_injOn {inputs : Set (List UInt8)} (free : inputs.InjOn Sha256.hexDigest) :
    (∀ left right : ArtifactId, left.Fits → right.Fits →
      frameParts left.parts ∈ inputs → frameParts right.parts ∈ inputs →
        left.fileName = right.fileName → left = right) ∧
    ∀ left right : List String,
      (∀ part ∈ left, part.utf8ByteSize < 2 ^ 64) →
      (∀ part ∈ right, part.utf8ByteSize < 2 ^ 64) →
      frameParts left ∈ inputs → frameParts right ∈ inputs →
        partsDigest left = partsDigest right → left = right := by
  have lists (left right : List String) (leftFits : ∀ part ∈ left, part.utf8ByteSize < 2 ^ 64)
      (rightFits : ∀ part ∈ right, part.utf8ByteSize < 2 ^ 64)
      (leftIn : frameParts left ∈ inputs) (rightIn : frameParts right ∈ inputs)
      (same : partsDigest left = partsDigest right) : left = right :=
    frameParts_injective leftFits rightFits (free leftIn rightIn same)
  refine ⟨?_, lists⟩
  intro left right leftFits rightFits leftIn rightIn same
  obtain ⟨labels, digests⟩ := label_eq_and_digest_eq same
  exact eq_of_parts_eq (lists _ _ leftFits rightFits leftIn rightIn digests) labels

/-- Keys whose names differ in nothing but the digest, or in nothing but one dash. -/
def dashedKeys : List ArtifactId :=
  [⟨"b-c", "a", none, "i", "m", "p", "s", .input⟩, ⟨"c", "a-b", none, "i", "m", "p", "s", .input⟩,
    ⟨"b", "a", some "c", "i", "m", "p", "s", .input⟩, ⟨"b", "a", none, "i", "m", "p", "s", .input⟩,
    ⟨"b", "a", some "", "i", "m", "p", "s", .input⟩]

theorem fileName_injOn_dashes :
    dashedKeys.map (·.label) =
        ["a-b-c-input-", "a-b-c-input-", "a-b-c-input-", "a-b-input-", "a-b--input-"] ∧
      (∀ key ∈ dashedKeys, key.Fits) ∧ (dashedKeys.map (·.fileName)).Nodup ∧
        partsDigest ["a", "bc"] ≠ partsDigest ["ab", "c"] := by
  -- The last two keys have one frame.
  let lists := dashedKeys.dropLast.map parts ++ [["a", "bc"], ["ab", "c"]]
  have checked : ((lists.map frameParts).map Sha256.hexDigest).Nodup := by decide +kernel
  have fits : ∀ key ∈ dashedKeys, key.Fits := by decide +kernel
  have framed : ∀ key ∈ dashedKeys, frameParts key.parts ∈ lists.map frameParts := by
    decide +kernel
  have free : {bytes | bytes ∈ lists.map frameParts}.InjOn Sha256.hexDigest :=
    fun _ here _ there => List.inj_on_of_nodup_map checked here there
  have apart := fileName_injOn free
  refine ⟨by decide +kernel, fits, ?_, ?_⟩
  · exact List.Nodup.map_on (fun left here right there => apart.1 left right (fits left here)
      (fits right there) (framed left here) (framed right there)) (by decide +kernel)
  · intro same
    have joined := apart.2 ["a", "bc"] ["ab", "c"] (by decide +kernel) (by decide +kernel)
      (by decide +kernel) (by decide +kernel) same
    exact absurd joined (by decide)

end ArtifactId

end ArchiveRemap
