import ArchiveRemap.Text.Cut

/-!
Descriptors of fields and methods. A descriptor is a sequence of marks and class
references, a reference being `L`, a class name and `;`. Every text is such a sequence: an
`L` that no `;` follows is a mark. Renaming changes the names of the references and
nothing else.
-/

namespace ArchiveRemap.Descriptor

inductive Piece where
  | mark (c : Char)
  | reference (name : String)
  deriving DecidableEq, Repr

def pieces (text : List Char) : List Piece :=
  match text with
  | [] => []
  | c :: rest =>
      if c = 'L' then
        match _found : Text.cut ';' rest with
        | some (name, after) => .reference (String.ofList name) :: pieces after
        | none => .mark c :: pieces rest
      else .mark c :: pieces rest
termination_by text.length
decreasing_by
  · have := Text.length_of_cut ‹_›
    simp only [List.length_cons]
    omega
  · simp
  · simp

def Piece.write : Piece → List Char
  | .mark c => [c]
  | .reference name => 'L' :: name.toList ++ [';']

def write (pieces : List Piece) : List Char := pieces.flatMap Piece.write

def Piece.rename (mapped : String → Option String) : Piece → Piece
  | .mark c => .mark c
  | .reference name => .reference ((mapped name).getD name)

def Piece.name? : Piece → Option String
  | .mark _ => none
  | .reference name => some name

/-- The descriptor with every class name replaced; a name without a new one stays. -/
def rename (mapped : String → Option String) (descriptor : String) : String :=
  String.ofList (write ((pieces descriptor.toList).map (Piece.rename mapped)))

/-- The class names of a descriptor in their order. -/
def references (descriptor : String) : List String :=
  (pieces descriptor.toList).filterMap Piece.name?

/-- What follows the last closing parenthesis. -/
def returnType? (descriptor : String) : Option String :=
  (Text.cutLast ')' descriptor.toList).map fun (_, after) => String.ofList after

/-- What stands between the first opening and the last closing parenthesis. -/
def parameters? (descriptor : String) : Option String := do
  let (_, after) ← Text.cut '(' descriptor.toList
  let (inside, _) ← Text.cutLast ')' after
  some (String.ofList inside)

/-- The class of an object descriptor `Lname;`. -/
def objectType? (descriptor : String) : Option String := do
  let body ← Text.dropHead? ['L'] descriptor.toList
  let name ← Text.dropTail? [';'] body
  some (String.ofList name)

/-! The pieces of a text are another way to write it. -/

theorem pieces_reference {rest name after : List Char}
    (found : Text.cut ';' rest = some (name, after)) :
    pieces ('L' :: rest) = .reference (String.ofList name) :: pieces after := by
  rw [pieces]
  simp only [if_true]
  split <;> simp_all

theorem pieces_open {rest : List Char} (absent : Text.cut ';' rest = none) :
    pieces ('L' :: rest) = .mark 'L' :: pieces rest := by
  rw [pieces]
  simp only [if_true]
  split <;> simp_all

theorem pieces_mark {c : Char} (rest : List Char) (different : c ≠ 'L') :
    pieces (c :: rest) = .mark c :: pieces rest := by
  rw [pieces]
  simp [different]

theorem write_pieces (text : List Char) : write (pieces text) = text := by
  induction text using pieces.induct with
  | case1 => simp [pieces, write]
  | case2 rest name after found ih =>
      rw [pieces_reference found, Text.eq_of_cut found]
      simpa [write, Piece.write] using ih
  | case3 rest absent ih =>
      rw [pieces_open absent]
      simpa [write, Piece.write] using ih
  | case4 c rest different ih =>
      rw [pieces_mark rest different]
      simpa [write, Piece.write] using ih

end ArchiveRemap.Descriptor
