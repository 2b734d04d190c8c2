import ArchiveRemap.SideFile.Transformer

/-!
Text files that follow the classes through a hop. A text is handed to the first kind of side
file that accepts its path.
-/

namespace ArchiveRemap

inductive SideFile where
  | widener (ignoreMismatch : Bool)
  | transformer
  deriving DecidableEq, Repr

namespace SideFile

def accepts : SideFile → String → Bool
  | .widener _, path => Widener.accepts path
  | .transformer, path => Transformer.accepts path

def transform (kind : SideFile) (path text : String) (renamer : Renamer) :
    Except ArchiveError (String × List Notice) :=
  match kind with
  | .widener ignoreMismatch => Widener.transform ignoreMismatch path text renamer
  | .transformer => .ok (Transformer.transform text renamer, [])

end SideFile

end ArchiveRemap
