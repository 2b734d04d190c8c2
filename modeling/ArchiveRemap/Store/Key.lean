import ArchiveRemap.Digest.Sha256

/-!
Names of artifacts. An artifact is named for all that can change its content: the pair of
namespaces and the patch state, and the digests of the input, the mapping data, the
classpath and the settings. The parts are digested together, each with its length before
it, so that no two lists of parts give the same bytes.
-/

namespace ArchiveRemap

/-- The length of a part as eight bytes, least significant first. -/
def lengthBytes (count : Nat) : List UInt8 :=
  (List.range 8).map fun k => UInt8.ofNat (count / 256 ^ k)

def framePart (part : String) : List UInt8 :=
  lengthBytes part.utf8ByteSize ++ Sha256.utf8 part

/-- All parts in one list of bytes. -/
def frameParts (parts : List String) : List UInt8 := parts.flatMap framePart

/-- The digest of a list of parts. -/
def partsDigest (parts : List String) : String := Sha256.hexDigest (frameParts parts)

/-- The digest of the content of a file. -/
def contentDigest (content : String) : String := Sha256.hexDigest (Sha256.utf8 content)

/-- What a hop renames: the archive that was asked for, or an archive of the classpath. -/
inductive HopRole where
  | input
  | classpath
  deriving DecidableEq, Repr

def HopRole.text : HopRole → String
  | .input => "input"
  | .classpath => "classpath"

structure ArtifactId where
  target : String
  source : String
  patchState : Option String
  input : String
  mappings : String
  classpath : String
  settings : String
  kind : HopRole
  deriving DecidableEq, Repr

namespace ArtifactId

def parts (key : ArtifactId) : List String :=
  [key.target, key.source, key.patchState.getD "", key.input, key.mappings, key.classpath,
    key.settings, key.kind.text]

def digest (key : ArtifactId) : String := partsDigest key.parts

/-- What comes before the digest in the name of an artifact. -/
def label (key : ArtifactId) : String :=
  let patch := match key.patchState with
    | some state => "-" ++ state
    | none => ""
  key.source ++ "-" ++ key.target ++ patch ++ "-" ++ key.kind.text ++ "-"

def fileName (key : ArtifactId) : String := key.label ++ key.digest ++ ".json"

end ArtifactId

end ArchiveRemap
