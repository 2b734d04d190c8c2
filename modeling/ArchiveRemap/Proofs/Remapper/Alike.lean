import ArchiveRemap.Proofs.Remapper.Fresh
import ArchiveRemap.Proofs.Store.Key
import Mathlib.Data.List.Basic

/-!
Calls whose artifacts have one place are alike, unless two of the byte strings that went into
their keys have the same digest.
-/

namespace ArchiveRemap

namespace HopOptions

/-- The parts of the digest of the settings. -/
def settingsParts (options : HopOptions) : HopRole → List String
  | .input =>
      [truthPart options.mixin.enabled, truthPart options.mixin.implicitWildcards,
        options.mixin.defaultRefmap, truthPart options.mixin.extras,
        truthPart options.ignoreMismatch]
  | .classpath => []

theorem truthPart_injective {left right : Bool} (same : truthPart left = truthPart right) :
    left = right := by
  revert same
  cases left <;> cases right <;> decide

theorem settings_eq_of_parts_eq {left right : HopOptions}
    (same : left.settingsParts .input = right.settingsParts .input) :
    left.mixin = right.mixin ∧ left.ignoreMismatch = right.ignoreMismatch := by
  obtain ⟨_, _, ⟨enabled, wildcards, refmap, extras⟩, mismatch, _⟩ := left
  obtain ⟨_, _, ⟨enabled', wildcards', refmap', extras'⟩, mismatch', _⟩ := right
  simp only [settingsParts, List.cons.injEq, and_true] at same
  obtain ⟨first, second, refmaps, third, last⟩ := same
  rw [truthPart_injective first, truthPart_injective second, refmaps, truthPart_injective third,
    truthPart_injective last]
  exact ⟨rfl, rfl⟩

end HopOptions

namespace HopCall

variable {left right call : HopCall}

/-- The lists of parts that are digested for the key of a call. -/
def partLists (call : HopCall) : List (List String) :=
  [call.key.parts, call.config.classpathParts call.kind call.archives call.libraries,
    call.config.options.settingsParts call.kind]

/-- The byte strings that are digested for the key of a call. -/
def digested (call : HopCall) : List (List UInt8) :=
  call.config.tree.bytes :: call.partLists.map frameParts ++
    (call.input :: call.archives ++ call.libraries).map Sha256.utf8

/-- No part is too long for its length to be told in eight bytes. -/
def Fits (call : HopCall) : Prop :=
  ∀ parts ∈ call.partLists, ∀ part ∈ parts, part.utf8ByteSize < 2 ^ 64

/-- Nothing that the calls digest collides. -/
def Apart (left right : HopCall) : Prop :=
  ∀ first ∈ left.digested, ∀ second ∈ right.digested,
    Sha256.hexDigest first = Sha256.hexDigest second → first = second

theorem contentDigest_ne (text : String) : contentDigest text ≠ "" := by
  intro empty
  have length := Sha256.length_hexDigest (Sha256.utf8 text)
  rw [contentDigest] at empty
  rw [empty] at length
  exact absurd length (by decide)

theorem not_mem_map_contentDigest (texts : List String) : "" ∉ texts.map contentDigest := by
  rw [List.mem_map]
  rintro ⟨text, -, empty⟩
  exact contentDigest_ne text empty

theorem texts_eq_of_digests_eq {texts others : List String}
    (free : ∀ text ∈ texts, ∀ other ∈ others, contentDigest text = contentDigest other →
      text = other) (same : texts.map contentDigest = others.map contentDigest) :
    texts = others := by
  induction texts generalizing others with
  | nil =>
      rw [List.map_nil, eq_comm, List.map_eq_nil_iff] at same
      exact same.symm
  | cons text rest ih =>
      cases others with
      | nil => cases same
      | cons other more =>
          rw [List.map_cons, List.map_cons, List.cons.injEq] at same
          have first := free text (by simp) other (by simp) same.1
          have rests := ih (fun text member other among =>
            free text (.tail _ member) other (.tail _ among)) same.2
          rw [first, rests]

variable (apart : Apart left right)

include apart

theorem parts_eq_of_digest_eq {first second : List String} (fits : left.Fits)
    (others : right.Fits) (member : first ∈ left.partLists) (among : second ∈ right.partLists)
    (same : partsDigest first = partsDigest second) : first = second := by
  refine frameParts_injective (fits first member) (others second among) (apart _ ?_ _ ?_ same)
  · exact List.mem_cons_of_mem _ (List.mem_append_left _ (List.mem_map_of_mem member))
  · exact List.mem_cons_of_mem _ (List.mem_append_left _ (List.mem_map_of_mem among))

theorem text_eq_of_digest_eq {text other : String}
    (member : text ∈ left.input :: left.archives ++ left.libraries)
    (among : other ∈ right.input :: right.archives ++ right.libraries)
    (same : contentDigest text = contentDigest other) : text = other := by
  refine utf8_injective (apart _ ?_ _ ?_ same)
  · exact List.mem_append_right _ (List.mem_map_of_mem member)
  · exact List.mem_append_right _ (List.mem_map_of_mem among)

theorem classpathParts_eq (kind : left.kind = right.kind)
    (same : left.config.classpathParts left.kind left.archives left.libraries =
      right.config.classpathParts right.kind right.archives right.libraries) :
    left.libraries = right.libraries ∧ (left.kind = .input → left.archives = right.archives ∧
      left.config.options.classpath.namespaceName.getD "" =
        right.config.options.classpath.namespaceName.getD "") := by
  have texts {chosen others : List String}
      (inside : ∀ text ∈ chosen, text ∈ left.input :: left.archives ++ left.libraries)
      (within : ∀ text ∈ others, text ∈ right.input :: right.archives ++ right.libraries)
      (digests : chosen.map contentDigest = others.map contentDigest) : chosen = others :=
    texts_eq_of_digests_eq (fun text member other among =>
      text_eq_of_digest_eq apart (inside text member) (within other among)) digests
  rw [← kind] at same
  cases role : left.kind with
  | input =>
      rw [role] at same
      simp only [Config.classpathParts, List.cons_append, List.cons.injEq] at same
      obtain ⟨named, rest⟩ := same
      -- No digest is empty, so the empty part is where the archives end.
      obtain ⟨archives, -, libraries⟩ := (List.append_cons_inj_of_notMem
        (not_mem_map_contentDigest _) (not_mem_map_contentDigest _)).mp rest
      exact ⟨texts (by simp +contextual) (by simp +contextual) libraries,
        fun _ => ⟨texts (by simp +contextual) (by simp +contextual) archives, named⟩⟩
  | classpath =>
      rw [role] at same
      simp only [Config.classpathParts, List.nil_append, List.cons.injEq, true_and] at same
      exact ⟨texts (by simp +contextual) (by simp +contextual) same, fun impossible => by
        cases impossible⟩

theorem alike_of_key_eq (fits : left.Fits) (others : right.Fits) (same : left.key = right.key) :
    Alike left right := by
  simp only [key, Config.keyOf, ArtifactId.mk.injEq] at same
  obtain ⟨target, source, patchState, input, mappings, classpath, settings, kind⟩ := same
  have classpath := classpathParts_eq apart kind
    (parts_eq_of_digest_eq apart fits others (by simp [partLists]) (by simp [partLists]) classpath)
  constructor
  case kind => exact kind
  case source => exact source
  case target => exact target
  case patchState => exact patchState
  case mappings => exact apart _ List.mem_cons_self _ List.mem_cons_self mappings
  case input => exact text_eq_of_digest_eq apart (by simp) (by simp) input
  case libraries => exact classpath.1
  case derived => exact classpath.2
  case settings =>
    intro role
    rw [← kind, role] at settings
    have parts : left.config.options.settingsParts .input =
        right.config.options.settingsParts .input :=
      parts_eq_of_digest_eq apart fits others (by simp [partLists, role])
        (by simp [partLists, ← kind, role]) settings
    exact HopOptions.settings_eq_of_parts_eq parts

/-- Calls whose artifacts have one place are alike. -/
theorem alike_of_placeOf_eq {store : Store} {tree : FileTree} (fits : left.Fits)
    (others : right.Fits)
    (same : tree.placeOf (store.pathOf left.key) = tree.placeOf (store.pathOf right.key)) :
    Alike left right := by
  refine alike_of_key_eq apart fits others (Store.key_eq_of_placeOf_eq ?_ ?_ ?_ same)
  · exact fits _ (by simp [partLists])
  · exact others _ (by simp [partLists])
  · intro digest
    rw [parts_eq_of_digest_eq apart fits others (by simp [partLists]) (by simp [partLists]) digest]

end HopCall

end ArchiveRemap
