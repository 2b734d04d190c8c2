import ArchiveRemap.SideFile.Widener
import ArchiveRemap.Symbol.ClassName

/-!
Access transformers. A line names an access, a class in dotted form and perhaps a member; a
method carries its descriptor, a field its name alone. Words come out separated by blanks.
-/

namespace ArchiveRemap.Transformer

/-- Whether a file is an access transformer. -/
def accepts (path : String) : Bool :=
  let name := fileName path
  name = "accesstransformer.cfg" || Text.endsWith "_at.cfg".toList name.toList

/-- A member of `owner` in the target namespace; a star stands for all members. -/
def renameMember (renamer : Renamer) (owner member : String) : String :=
  if member.toList.head? = some '*' then member
  else
    match Text.cut '(' member.toList with
    | some (name, rest) =>
        let desc := String.ofList ('(' :: rest)
        renamer.mapMember .method owner (String.ofList name) desc ++ renamer.mapDesc desc
    | none => (renamer.table.mapFieldNamed? owner member).getD member

def renameWords (renamer : Renamer) : List String → List String
  | access :: name :: rest =>
      let owner := ClassName.ofDotted name
      access :: ClassName.toDotted (renamer.mapClass owner) ::
        match rest with
        | [] => []
        | member :: more => renameMember renamer owner member :: more
  | words => words

def renameLine (renamer : Renamer) (line : List Char) : String :=
  let (content, comment) := cutComment line
  match wordTexts content with
  | [] => String.ofList line
  | words => joinWords " " (renameWords renamer words) comment

def transform (text : String) (renamer : Renamer) : String :=
  joinLines text ((Text.lines text.toList).map (renameLine renamer))

end ArchiveRemap.Transformer
