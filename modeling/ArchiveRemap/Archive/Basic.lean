import ArchiveRemap.Keyed
import ArchiveRemap.RenameTable.Basic

/-!
Archives of classes. A class is known by its declarations: names, supertypes, members and
annotations, without code. An archive keeps its entries in order, and an annotation its
elements.
-/

namespace ArchiveRemap

/-- The value of an annotation element. A class literal is held as a descriptor. -/
inductive Element where
  | bool (truth : Bool)
  | int (number : Int64)
  | string (text : String)
  | type (desc : String)
  | constant (desc value : String)
  | array (items : List Element)
  | nested (desc : String) (values : List (String × Element))
  deriving Repr, BEq

instance : Inhabited Element := ⟨.bool false⟩

structure AnnotationNode where
  desc : String
  values : Keyed String Element
  deriving Repr, BEq, Inhabited

namespace Element

def string? : Element → Option String
  | .string text => some text
  | _ => none

def bool? : Element → Option Bool
  | .bool truth => some truth
  | _ => none

def classLiteral? : Element → Option String
  | .type desc => some desc
  | _ => none

def nested? : Element → Option AnnotationNode
  | .nested desc values => some ⟨desc, values⟩
  | _ => none

/-- The elements of an array; any other value is its own only element. -/
def elements : Element → List Element
  | .array items => items
  | other => [other]

end Element

namespace AnnotationNode

def get? (note : AnnotationNode) (name : String) : Option Element :=
  Keyed.get? name note.values

/-- The elements under a name, none if it is not there. -/
def elements (note : AnnotationNode) (name : String) : List Element :=
  match note.get? name with
  | some element => element.elements
  | none => []

def strings (note : AnnotationNode) (name : String) : List String :=
  (note.elements name).filterMap Element.string?

def annotations (note : AnnotationNode) (name : String) : List AnnotationNode :=
  (note.elements name).filterMap Element.nested?

def string? (note : AnnotationNode) (name : String) : Option String :=
  (note.get? name).bind Element.string?

/-- The truth value of `remap`, where it is written, and else the one passed down. -/
def remap (note : AnnotationNode) (inherited : Bool) : Bool :=
  ((note.get? "remap").bind Element.bool?).getD inherited

end AnnotationNode

structure MemberNode where
  access : UInt16
  name : String
  desc : String
  annotations : List AnnotationNode
  deriving Repr, BEq, Inhabited

structure ClassNode where
  name : String
  access : UInt16
  superName : Option String
  interfaces : List String
  annotations : List AnnotationNode
  fields : List MemberNode
  methods : List MemberNode
  deriving Repr, BEq, Inhabited

namespace ClassNode

/-- The path of a class in an archive. -/
def pathOf (name : String) : String := name ++ ".class"

def path (node : ClassNode) : String := pathOf node.name

def members (kind : MemberKind) (node : ClassNode) : List MemberNode :=
  match kind with
  | .field => node.fields
  | .method => node.methods

def annotationOf? (node : ClassNode) (desc : String) : Option AnnotationNode :=
  node.annotations.find? fun note => note.desc = desc

end ClassNode

inductive Entry where
  | classFile (node : ClassNode)
  | text (content : String)
  | binary (bytes : List UInt8)
  deriving Repr, BEq, Inhabited

namespace Entry

def class? : Entry → Option ClassNode
  | .classFile node => some node
  | _ => none

def text? : Entry → Option String
  | .text content => some content
  | _ => none

end Entry

structure Archive where
  entries : Keyed String Entry
  deriving Repr, BEq, Inhabited

/-- What follows the last `/` of a path. -/
def fileName (path : String) : String :=
  match Text.cutLast '/' path.toList with
  | some (_, name) => String.ofList name
  | none => path

namespace Archive

def empty : Archive := ⟨[]⟩

def classes (archive : Archive) : List ClassNode :=
  archive.entries.values.filterMap Entry.class?

theorem mem_classes {archive : Archive} {pair : String × Entry} {node : ClassNode}
    (member : pair ∈ archive.entries) (held : pair.2.class? = some node) :
    node ∈ archive.classes :=
  List.mem_filterMap.mpr ⟨pair.2, List.mem_map_of_mem member, held⟩

def class? (archive : Archive) (name : String) : Option ClassNode :=
  (archive.entries.get? (ClassNode.pathOf name)).bind Entry.class?

def text? (archive : Archive) (path : String) : Option String :=
  (archive.entries.get? path).bind Entry.text?

def putText (archive : Archive) (path content : String) : Archive :=
  ⟨archive.entries.put path (.text content)⟩

/-- The texts whose file name passes a test, each with its path. -/
def textsNamed (archive : Archive) (accepts : String → Bool) : List (String × String) :=
  archive.entries.filterMap fun (path, entry) =>
    if accepts (fileName path) then entry.text?.map fun content => (path, content)
    else none

end Archive

end ArchiveRemap
