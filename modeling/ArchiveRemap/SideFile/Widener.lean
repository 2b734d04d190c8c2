import ArchiveRemap.Hierarchy.Renamer
import ArchiveRemap.Notice
import ArchiveRemap.Text.Line

/-!
Access wideners. The first line with words is the header, which names the namespace of the
file; every later one is an entry for a class, a method or a field. Words come out separated
by tabs. A comment starts at the first `#` and is kept.
-/

namespace ArchiveRemap

/-- A line before its comment, and the comment with its mark. -/
def cutComment (line : List Char) : List Char × Option (List Char) :=
  match Text.cut '#' line with
  | some (content, comment) => (content, some ('#' :: comment))
  | none => (line, none)

/-- Words and a comment, put together again around a separator. -/
def joinWords (separator : String) (words : List String) (comment : Option (List Char)) :
    String :=
  String.intercalate separator words ++
    match comment with
    | some comment => separator ++ String.ofList comment
    | none => ""

/-- Lines put together again; the last one is ended as the text was. -/
def joinLines (text : String) (lines : List String) : String :=
  String.intercalate "\n" lines ++ if text.toList.getLast? = some '\n' then "\n" else ""

def wordTexts (content : List Char) : List String := (Text.words content).map String.ofList

namespace Widener

/-- Whether a file is an access widener. -/
def accepts (path : String) : Bool :=
  let name := (fileName path).toList
  Text.endsWith ".accesswidener".toList name || Text.endsWith ".aw".toList name

def isAccess (word : String) : Bool :=
  let bare := (Text.dropHead? "transitive-".toList word.toList).getD word.toList
  bare = "accessible".toList || bare = "extendable".toList || bare = "mutable".toList

/-- The words of an entry in the target namespace. -/
def renameEntryWords (renamer : Renamer) (words : List String) : Except EntryFault (List String) :=
  match words with
  | [] => .error (.malformed [])
  | access :: rest =>
      if !isAccess access then .error (.unknownAccess access)
      else
        match rest with
        | ["class", name] => .ok [access, "class", renamer.mapClass name]
        | ["method", owner, name, desc] =>
            .ok [access, "method", renamer.mapClass owner,
              renamer.mapMember .method owner name desc, renamer.mapDesc desc]
        | ["field", owner, name, desc] =>
            .ok [access, "field", renamer.mapClass owner,
              renamer.mapMember .field owner name desc, renamer.mapDesc desc]
        | _ => .error (.malformed words)

/-- The namespace of a header line. -/
def readHeader (line : List Char) (words : List String) :
    Except WidenerFault (String × String) :=
  match words with
  | ["accessWidener", version, found] =>
      if version = "v1" || version = "v2" then .ok (version, found)
      else .error (.badHeader (String.ofList line))
  | _ => .error (.badHeader (String.ofList line))

/-- The lines after the header, with the number of the first of them. -/
def renameEntryLines (renamer : Renamer) (number : Nat) :
    List (List Char) → Except WidenerFault (List String)
  | [] => .ok []
  | line :: rest =>
      let (content, comment) := cutComment line
      match wordTexts content with
      | [] => do .ok (String.ofList line :: (← renameEntryLines renamer (number + 1) rest))
      | words =>
          match renameEntryWords renamer words with
          | .error fault => .error (.badEntry number fault)
          | .ok remapped => do
              .ok (joinWords "\t" remapped comment ::
                (← renameEntryLines renamer (number + 1) rest))

/-- Lines up to the header and on. Nothing comes out of a file of another namespace. -/
inductive Outcome where
  | remapped (lines : List String)
  | otherNamespace (found : String)
  deriving DecidableEq, Repr

def renameAllLines (renamer : Renamer) (number : Nat) :
    List (List Char) → Except WidenerFault Outcome
  | [] => .error .noHeader
  | line :: rest =>
      let (content, comment) := cutComment line
      match wordTexts content with
      | [] => do
          match ← renameAllLines renamer (number + 1) rest with
          | .remapped lines => .ok (.remapped (String.ofList line :: lines))
          | .otherNamespace found => .ok (.otherNamespace found)
      | words => do
          let (version, found) ← readHeader line words
          if found ≠ renamer.table.source then .ok (.otherNamespace found)
          else
            let header :=
              joinWords "\t" ["accessWidener", version, renamer.table.target] comment
            .ok (.remapped (header :: (← renameEntryLines renamer (number + 1) rest)))

/-- The text in the target namespace. A file of another namespace is refused, or copied as
it is when the mismatch is to be ignored. -/
def transform (ignoreMismatch : Bool) (path text : String) (renamer : Renamer) :
    Except ArchiveError (String × List Notice) :=
  match renameAllLines renamer 1 (Text.lines text.toList) with
  | .error fault => .error (.widener path fault)
  | .ok (.remapped lines) => .ok (joinLines text lines, [])
  | .ok (.otherNamespace found) =>
      if ignoreMismatch then
        .ok (text, [.widenerCopied path found renamer.table.source])
      else .error (.widener path (.otherNamespace found renamer.table.source))

end Widener

end ArchiveRemap
