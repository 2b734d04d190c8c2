import ArchiveRemap.Proofs.Symbol.Descriptor

/-!
Descriptors by their grammar. A well-formed descriptor spells a type, or the parameters and the
result of a method. The scanner splits it where the grammar does, so renaming changes the names
of the classes that it spells and no other character. Of a text that spells nothing the same
holds piece by piece, which makes renaming a homomorphism on all texts.
-/

namespace ArchiveRemap.Descriptor

inductive BaseType where
  | byte | char | double | float | int | long | short | boolean
  deriving DecidableEq, Repr

def BaseType.mark : BaseType → Char
  | .byte => 'B'
  | .char => 'C'
  | .double => 'D'
  | .float => 'F'
  | .int => 'I'
  | .long => 'J'
  | .short => 'S'
  | .boolean => 'Z'

/-- The type of a value. -/
inductive ValueType where
  | base (type : BaseType)
  | object (className : String)
  | array (element : ValueType)
  deriving DecidableEq, Repr

namespace ValueType

def write : ValueType → List Char
  | .base type => [type.mark]
  | .object className => 'L' :: className.toList ++ [';']
  | .array element => '[' :: element.write

def classNames : ValueType → List String
  | .base _ => []
  | .object className => [className]
  | .array element => element.classNames

def mapNames (f : String → String) : ValueType → ValueType
  | .base type => .base type
  | .object className => .object (f className)
  | .array element => .array (element.mapNames f)

/-- A method without a result is marked by `V`. -/
def writeResult : Option ValueType → List Char
  | none => ['V']
  | some type => type.write

end ValueType

/-- What a well-formed descriptor spells. -/
inductive Shape where
  | field (type : ValueType)
  | method (parameters : List ValueType) (result : Option ValueType)
  deriving DecidableEq, Repr

namespace Shape

def write : Shape → List Char
  | .field type => type.write
  | .method parameters result =>
      '(' :: parameters.flatMap ValueType.write ++ ')' :: ValueType.writeResult result

def text (shape : Shape) : String := String.ofList shape.write

def classNames : Shape → List String
  | .field type => type.classNames
  | .method parameters result =>
      parameters.flatMap ValueType.classNames ++ result.toList.flatMap ValueType.classNames

def mapNames (f : String → String) : Shape → Shape
  | .field type => .field (type.mapNames f)
  | .method parameters result =>
      .method (parameters.map (ValueType.mapNames f)) (result.map (ValueType.mapNames f))

/-- Every class has a name that can stand in a reference. -/
def Plain (shape : Shape) : Prop := ∀ className ∈ shape.classNames, ';' ∉ className.toList

instance (shape : Shape) : Decidable shape.Plain :=
  inferInstanceAs (Decidable (∀ className ∈ shape.classNames, ';' ∉ className.toList))

end Shape

/-! The pieces of a well-formed descriptor. -/

/-- Pieces that end where they seem to end, whatever stands behind them. -/
def Piece.Closed : Piece → Prop
  | .mark c => c ≠ 'L'
  | .reference name => ';' ∉ name.toList

theorem scanned_of_closed {list : List Piece} (closed : ∀ piece ∈ list, piece.Closed) :
    Scanned list := by
  induction list with
  | nil => exact .nil
  | cons piece rest ih =>
      obtain ⟨first, others⟩ := List.forall_mem_cons.mp closed
      cases piece with
      | mark c => exact .mark first (ih others)
      | reference name => exact .reference first (ih others)

theorem write_append (front back : List Piece) :
    write (front ++ back) = write front ++ write back :=
  List.flatMap_append

namespace ValueType

def pieces : ValueType → List Piece
  | .base type => [.mark type.mark]
  | .object className => [.reference className]
  | .array element => .mark '[' :: element.pieces

def resultPieces : Option ValueType → List Piece
  | none => [.mark 'V']
  | some type => type.pieces

theorem write_pieces (type : ValueType) : Descriptor.write type.pieces = type.write := by
  induction type with
  | base type => rfl
  | object className => simp [pieces, write, Descriptor.write, Piece.write]
  | array element ih => rw [pieces, write_cons, ih]; rfl

theorem write_resultPieces (result : Option ValueType) :
    Descriptor.write (resultPieces result) = writeResult result := by
  cases result with
  | none => rfl
  | some type => exact type.write_pieces

theorem closed_of_mem_pieces {type : ValueType}
    (plain : ∀ className ∈ type.classNames, ';' ∉ className.toList) :
    ∀ piece ∈ type.pieces, piece.Closed := by
  induction type with
  | base type => cases type <;> simp [pieces, Piece.Closed, BaseType.mark]
  | object className => simpa [pieces, Piece.Closed, classNames] using plain
  | array element ih =>
      rw [pieces, List.forall_mem_cons]
      exact ⟨by simp [Piece.Closed], ih plain⟩

theorem closed_of_mem_resultPieces {result : Option ValueType}
    (plain : ∀ className ∈ result.toList.flatMap classNames, ';' ∉ className.toList) :
    ∀ piece ∈ resultPieces result, piece.Closed := by
  cases result with
  | none => simp [resultPieces, Piece.Closed]
  | some type => exact closed_of_mem_pieces (by simpa using plain)

theorem map_rename_pieces (mapped : String → Option String) (type : ValueType) :
    type.pieces.map (Piece.rename mapped) = (type.mapNames (renamed mapped)).pieces := by
  induction type with
  | base type => rfl
  | object className => rfl
  | array element ih => rw [pieces, List.map_cons, ih]; rfl

theorem map_rename_resultPieces (mapped : String → Option String) (result : Option ValueType) :
    (resultPieces result).map (Piece.rename mapped) =
      resultPieces (result.map (mapNames (renamed mapped))) := by
  cases result with
  | none => rfl
  | some type => exact type.map_rename_pieces mapped

end ValueType

namespace Shape

def pieces : Shape → List Piece
  | .field type => type.pieces
  | .method parameters result =>
      .mark '(' :: parameters.flatMap ValueType.pieces ++ .mark ')' :: ValueType.resultPieces result

theorem write_pieces (shape : Shape) : Descriptor.write shape.pieces = shape.write := by
  cases shape with
  | field type => exact type.write_pieces
  | method parameters result =>
      have inside : Descriptor.write (parameters.flatMap ValueType.pieces) =
          parameters.flatMap ValueType.write := by
        rw [Descriptor.write, List.flatMap_assoc]
        exact List.flatMap_congr fun type _ => type.write_pieces
      rw [pieces, List.cons_append, write_cons, write_append, inside, write_cons,
        ValueType.write_resultPieces]
      rfl

theorem closed_of_mem_pieces {shape : Shape} (plain : shape.Plain) :
    ∀ piece ∈ shape.pieces, piece.Closed := by
  cases shape with
  | field type => exact ValueType.closed_of_mem_pieces plain
  | method parameters result =>
      obtain ⟨inside, behind⟩ := List.forall_mem_append.mp plain
      intro piece member
      simp only [pieces, List.cons_append, List.mem_cons, List.mem_append,
        List.mem_flatMap] at member
      rcases member with rfl | ⟨type, listed, member⟩ | rfl | member
      · simp [Piece.Closed]
      · exact ValueType.closed_of_mem_pieces
          (fun className used => inside className (List.mem_flatMap.mpr ⟨type, listed, used⟩))
          piece member
      · simp [Piece.Closed]
      · exact ValueType.closed_of_mem_resultPieces behind piece member

theorem map_rename_pieces (mapped : String → Option String) (shape : Shape) :
    shape.pieces.map (Piece.rename mapped) = (shape.mapNames (renamed mapped)).pieces := by
  cases shape with
  | field type => exact type.map_rename_pieces mapped
  | method parameters result =>
      have inside : (parameters.flatMap ValueType.pieces).map (Piece.rename mapped) =
          (parameters.map (ValueType.mapNames (renamed mapped))).flatMap ValueType.pieces := by
        rw [List.map_flatMap, List.flatMap_map]
        exact List.flatMap_congr fun type _ => type.map_rename_pieces mapped
      rw [pieces, List.cons_append, List.map_cons, List.map_append, inside, List.map_cons,
        ValueType.map_rename_resultPieces]
      rfl

/-- The scanner finds the pieces that the grammar gives. -/
theorem pieces_text {shape : Shape} (plain : shape.Plain) :
    Descriptor.pieces shape.text.toList = shape.pieces := by
  rw [text, String.toList_ofList, ← shape.write_pieces]
  exact pieces_write (scanned_of_closed (closed_of_mem_pieces plain))

/-- Renaming a well-formed descriptor spells the same shape with the new class names. -/
theorem rename_text {shape : Shape} (plain : shape.Plain) (mapped : String → Option String) :
    rename mapped shape.text = (shape.mapNames (renamed mapped)).text := by
  rw [rename, pieces_text plain, map_rename_pieces, write_pieces]
  rfl

end Shape

/-- Renaming is a homomorphism on every text. As long as no new name holds a `;`, renaming twice is
renaming once by both names in turn, and the references come out renamed in their order. Where
every name is kept the text is kept, and of a well-formed descriptor only the names of its
classes change. -/
theorem rename_homomorphic {mapped : String → Option String}
    (plain : ∀ name new, mapped name = some new → ';' ∉ new.toList)
    (next : String → Option String) (desc : String) :
    rename next (rename mapped desc) =
        rename (fun name => some (renamed next (renamed mapped name))) desc ∧
      references (rename mapped desc) = (references desc).map (renamed mapped) ∧
      (∀ keeping : String → Option String, (∀ name, renamed keeping name = name) →
        rename keeping desc = desc) ∧
      ∀ shape : Shape, shape.Plain → desc = shape.text →
        rename mapped desc = (shape.mapNames (renamed mapped)).text := by
  refine ⟨rename_rename plain desc, references_rename plain desc, ?_, ?_⟩
  · intro keeping keeps
    exact rename_eq_self fun name _ => keeps name
  · rintro shape named rfl
    exact Shape.rename_text named mapped

/-- A new name with an `L` in it, which is gone through again when the result is renamed. -/
def innerName (name : String) : Option String := if name = "a" then some "La" else none

def outerName (name : String) : Option String := if name = "La" then some "p/Level" else none

/-- A text whose last reference does not end, and the descriptor of a method. -/
theorem rename_homomorphic_unended :
    let method : Shape := .method [.object "a", .array (.base .int)] none
    (∀ name new, innerName name = some new → ';' ∉ new.toList) ∧
      rename outerName (rename innerName "La;LbLa;La") =
        rename (fun name => some (renamed outerName (renamed innerName name))) "La;LbLa;La" ∧
      rename outerName (rename innerName "La;LbLa;La") = "Lp/Level;LbLa;La" ∧
      references (rename innerName "La;LbLa;La") = ["La", "bLa"] ∧
      method.Plain ∧ rename innerName "(La;[I)V" = "(LLa;[I)V" := by
  intro method
  have plain : ∀ name new, innerName name = some new → ';' ∉ new.toList := by
    intro name new found
    rw [innerName, Option.ite_none_right_eq_some] at found
    cases found.2
    decide
  have named : method.Plain := by decide
  obtain ⟨twice, inOrder, -, -⟩ := rename_homomorphic plain outerName "La;LbLa;La"
  obtain ⟨-, -, -, spelt⟩ := rename_homomorphic plain outerName method.text
  refine ⟨plain, twice, by decide +kernel, inOrder.trans (by decide +kernel), named, ?_⟩
  exact spelt method named rfl

end ArchiveRemap.Descriptor
