import ArchiveRemap.Symbol.Descriptor

/-!
References to members as they stand in annotations and reference maps: `Lowner;name(desc)`
for a method, `Lowner;name:desc` for a field, where the owner and the descriptor may be
left out.
-/

namespace ArchiveRemap

structure WrittenMember where
  owner : Option String
  name : String
  desc : Option String
  deriving DecidableEq, Repr

namespace WrittenMember

/-- The owner in front of a reference and what follows it. -/
def cutOwner (text : List Char) : Option String × List Char :=
  match (Text.dropHead? ['L'] text).bind (Text.cut ';') with
  | some (owner, rest) => (some (String.ofList owner), rest)
  | none => (none, text)

/-- Read a method; the descriptor starts at the first parenthesis. -/
def ofMethod (text : String) : WrittenMember :=
  let (owner, rest) := cutOwner text.toList
  match Text.cut '(' rest with
  | some (name, after) => ⟨owner, String.ofList name, some (String.ofList ('(' :: after))⟩
  | none => ⟨owner, String.ofList rest, none⟩

/-- Read a field; the descriptor follows the first colon. -/
def ofField (text : String) : WrittenMember :=
  let (owner, rest) := cutOwner text.toList
  match Text.cut ':' rest with
  | some (name, after) => ⟨owner, String.ofList name, some (String.ofList after)⟩
  | none => ⟨owner, String.ofList rest, none⟩

def ownerText : Option String → String
  | none => ""
  | some owner => "L" ++ owner ++ ";"

def methodText (reference : WrittenMember) : String :=
  ownerText reference.owner ++ reference.name ++ reference.desc.getD ""

def fieldText (reference : WrittenMember) : String :=
  ownerText reference.owner ++ reference.name ++
    match reference.desc with
    | none => ""
    | some desc => ":" ++ desc

end WrittenMember

end ArchiveRemap
