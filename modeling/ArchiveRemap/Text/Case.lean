import ArchiveRemap.Text.Letter
import ArchiveRemap.Text.CaseRuns

/-!
Upper and lower case of text. A character may have several characters as its other
case. A capital sigma at the end of a word becomes a final sigma: a cased letter comes
before it and none after it, where characters that carry no case of their own are
looked through on both sides.
-/

namespace ArchiveRemap.Text

/-- The image of a code point in a case table, the code point itself outside it. -/
def runImage (runs : List (Nat × Nat × Nat × Nat)) (code : Nat) : Nat :=
  match runs.find? fun (first, last, step, _) =>
      first ≤ code && code ≤ last && (code - first) % step = 0 with
  | some (first, _, _, image) => image + (code - first)
  | none => code

def caseImage (sequences : List (Nat × List Nat))
    (runs : List (Nat × Nat × Nat × Nat)) (c : Char) : List Char :=
  match sequences.lookup c.toNat with
  | some codes => codes.map Char.ofNat
  | none => [Char.ofNat (runImage runs c.toNat)]

def lowerChar (c : Char) : List Char :=
  if c.toNat < 128 then [c.toLower] else caseImage lowerSequences lowerRuns c

def upperChar (c : Char) : List Char :=
  if c.toNat < 128 then [c.toUpper] else caseImage upperSequences upperRuns c

def isCased (c : Char) : Bool := inRanges casedRanges c.toNat

def isCaseIgnorable (c : Char) : Bool := inRanges caseIgnorableRanges c.toNat

/-- Whether the first character that is not looked through has a case. -/
def meetsCased (text : List Char) : Bool :=
  match text.dropWhile isCaseIgnorable with
  | [] => false
  | c :: _ => isCased c

/-- Lower case of the text that follows `done`, which is given last character first. -/
def lowerAfter (done : List Char) : List Char → List Char
  | [] => []
  | c :: rest =>
      let image :=
        if c = 'Σ' then
          if meetsCased done && !meetsCased rest then ['ς'] else ['σ']
        else lowerChar c
      image ++ lowerAfter (c :: done) rest

def lower (text : List Char) : List Char := lowerAfter [] text

def upper (text : List Char) : List Char := text.flatMap upperChar

/-- The text with its first character in lower case. -/
def smallInitial : List Char → List Char
  | [] => []
  | c :: rest => lowerChar c ++ rest

end ArchiveRemap.Text
