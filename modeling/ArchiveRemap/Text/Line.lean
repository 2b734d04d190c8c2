import ArchiveRemap.Text.Cut

/-!
Lines and words. A line ends at a line feed, together with one carriage return right
before it; the text after the last line feed is a line of its own unless it is empty,
and keeps its carriage return. Words are separated by blanks, the characters of the
White_Space property.
-/

namespace ArchiveRemap.Text

/-- The White_Space property. -/
def isBlank (c : Char) : Bool :=
  let n := c.toNat
  (9 ≤ n && n ≤ 13) || n = 0x20 || n = 0x85 || n = 0xA0 || n = 0x1680 ||
    (0x2000 ≤ n && n ≤ 0x200A) || n = 0x2028 || n = 0x2029 || n = 0x202F ||
    n = 0x205F || n = 0x3000

def allBlank (text : List Char) : Bool := text.all isBlank

def dropReturn (line : List Char) : List Char :=
  if line.getLast? = some '\r' then line.dropLast else line

def lines (text : List Char) : List (List Char) :=
  match _found : cut '\n' text with
  | some (line, rest) => dropReturn line :: lines rest
  | none => if text.isEmpty then [] else [text]
termination_by text.length
decreasing_by exact length_of_cut ‹_›

def words (text : List Char) : List (List Char) :=
  (text.splitOnP isBlank).filter fun word => !word.isEmpty

end ArchiveRemap.Text
