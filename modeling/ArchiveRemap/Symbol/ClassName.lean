import ArchiveRemap.Text.Cut
import ArchiveRemap.Text.Letter

/-!
Class names in internal form, with `/` between packages, and in dotted form.
-/

namespace ArchiveRemap.ClassName

def isNameCharacter (c : Char) : Bool :=
  Text.isAlphanumeric c || c = '/' || c = '$' || c = '_' || c = '-'

/-- Whether a text can be an internal class name: no segment is empty and every character
belongs to names. -/
def isInternal (text : String) : Bool :=
  let name := text.toList
  !name.isEmpty && name.head? != some '/' && name.getLast? != some '/' &&
    !Text.holds ['/', '/'] name && name.all isNameCharacter

def ofDotted (text : String) : String := String.ofList (Text.swap '.' '/' text.toList)

def toDotted (text : String) : String := String.ofList (Text.swap '/' '.' text.toList)

end ArchiveRemap.ClassName
