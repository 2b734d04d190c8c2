/-!
What can go wrong. Every failure is a cause with the data that its text mentions; the text
is made here and nowhere else. A failure that another one brought about has a chain of
causes, outermost first.
-/

namespace ArchiveRemap

/-- Why a file could not be used. -/
inductive FileError where
  | notFound
  | notADirectory
  | isADirectory
  | alreadyExists
  | nameTooLong
  | invalidName
  | notAFile
  | busy
  deriving DecidableEq, Repr

def FileError.text : FileError → String
  | .notFound => "No such file or directory (os error 2)"
  | .notADirectory => "Not a directory (os error 20)"
  | .isADirectory => "Is a directory (os error 21)"
  | .alreadyExists => "File exists (os error 17)"
  | .nameTooLong => "File name too long (os error 36)"
  | .invalidName => "file name contained an unexpected NUL byte"
  | .notAFile => "the source path is neither a regular file nor a symlink to a regular file"
  | .busy => "Device or resource busy (os error 16)"

/-- Why a line of Tiny text is refused. -/
inductive TinyFault where
  | emptyFile
  | badHeader (line : String)
  | tooManyNames (width found : Nat)
  | noFirstName
  | noDescriptor
  | outsideClass
  | unexpectedEntry (kind : String)
  deriving DecidableEq, Repr

def TinyFault.message : TinyFault → String
  | .emptyFile => "empty mapping file"
  | .badHeader line => "expected a tiny v2 header, found `" ++ line ++ "`"
  | .tooManyNames width found =>
      "expected " ++ toString width ++ " names, found " ++ toString found
  | .noFirstName => "missing name in the first namespace"
  | .noDescriptor => "member without descriptor"
  | .outsideClass => "member outside of a class"
  | .unexpectedEntry kind => "unexpected `" ++ kind ++ "` entry"

/-- Why an entry line of an access widener is refused. -/
inductive EntryFault where
  | unknownAccess (access : String)
  | malformed (words : List String)
  deriving DecidableEq, Repr

/-- Why an access widener is refused. -/
inductive WidenerFault where
  | badHeader (line : String)
  | otherNamespace (found expected : String)
  | badEntry (line : Nat) (fault : EntryFault)
  | noHeader
  deriving DecidableEq, Repr

def EntryFault.message : EntryFault → String
  | .unknownAccess access => "unknown access `" ++ access ++ "`"
  | .malformed words => "malformed entry `" ++ String.intercalate " " words ++ "`"

def WidenerFault.message : WidenerFault → String
  | .badHeader line => "invalid header `" ++ line ++ "`"
  | .otherNamespace found expected =>
      "written for namespace `" ++ found ++ "` but the input is in `" ++ expected ++ "`"
  | .badEntry line fault => "line " ++ toString line ++ ": " ++ fault.message
  | .noHeader => "missing header"

/-- A mixin text of the input that is no JSON document of its kind. -/
inductive MixinFault where
  | badRefmap (path : String)
  | badConfig (path : String)
  deriving DecidableEq, Repr

def MixinFault.message : MixinFault → String
  | .badRefmap path => "invalid refmap " ++ path
  | .badConfig path => "invalid mixin config " ++ path

/-- Failures of one hop, while it reads, changes or writes archives. -/
inductive ArchiveError where
  | access (path : String) (cause : FileError)
  | malformed (path : String)
  | widener (path : String) (fault : WidenerFault)
  | workers (message : String)
  | mixin (fault : MixinFault)
  deriving DecidableEq, Repr

def ArchiveError.message : ArchiveError → String
  | .access path _ => "failed to access archive " ++ path
  | .malformed path => "malformed archive " ++ path
  | .widener path fault => "access widener `" ++ path ++ "`: " ++ fault.message
  | .workers message => "failed to start worker pool: " ++ message
  | .mixin fault => "mixin: " ++ fault.message

/-- Why no route leads from one namespace to another. -/
inductive RouteFault where
  | targetFallback (fallback target : String)
  | sourceFallback (fallback source : String)
  | unconnected
  deriving DecidableEq, Repr

def RouteFault.message : RouteFault → String
  | .targetFallback fallback target =>
      "destination fallback `" ++ fallback ++ "` is not adjacent to `" ++ target ++ "`"
  | .sourceFallback fallback source =>
      "source fallback `" ++ fallback ++ "` is not adjacent to `" ++ source ++ "`"
  | .unconnected => "no namespace chain connects them"

/-- Failures of a whole request. -/
inductive RequestError where
  | noPath (source target : String) (fault : RouteFault) (adjacency : String)
  | ambiguousTarget (symbol : String) (candidates : List String)
  | engine (source target : String) (cause : ArchiveError)
  | duplicateNamespace (name : String)
  | unknownNamespace (name : String)
  | unknownDependency (name dependency : String)
  | cyclicDependency (name : String)
  | missingRoot
  | unmappedNamespace (name : String)
  | mappingFormat (path : String) (line : Nat) (fault : TinyFault)
  deriving DecidableEq, Repr

def RequestError.message : RequestError → String
  | .noPath source target fault adjacency =>
      "no remap path from `" ++ source ++ "` to `" ++ target ++ "`: " ++ fault.message ++
        "\nnamespace adjacency:\n" ++ adjacency
  | .ambiguousTarget symbol candidates =>
      "ambiguous target `" ++ symbol ++ "`, candidates: " ++
        String.intercalate ", " candidates
  | .engine source target _ =>
      "rewrite engine failed while remapping `" ++ source ++ "` -> `" ++ target ++ "`"
  | .duplicateNamespace name => "namespace `" ++ name ++ "` is registered twice"
  | .unknownNamespace name => "unknown namespace `" ++ name ++ "`"
  | .unknownDependency name dependency =>
      "namespace `" ++ name ++ "` depends on unknown namespace `" ++ dependency ++ "`"
  | .cyclicDependency name =>
      "circular namespace dependency involving `" ++ name ++ "`"
  | .missingRoot => "no root namespace: at least one namespace must have no dependencies"
  | .unmappedNamespace name =>
      "namespace `" ++ name ++
        "` has no column in the mapping data, nor does any of its fallbacks"
  | .mappingFormat path line fault =>
      path ++ ":" ++ toString line ++ ": " ++ fault.message

/-- Failures before a request can be looked at, and of the command line's own writing. -/
inductive SetupError where
  | remap (cause : RequestError)
  | engine (cause : ArchiveError)
  | rootMismatch (theirs ours : String)
  | mappingsUnreadable (path : String) (cause : FileError)
  | mergeFailed (path theirs ours : String)
  | settingsUnreadable (path : String) (cause : FileError)
  | settingsMalformed
  | settingsRefused (path : String)
  | unwritable (path : String) (cause : FileError)
  deriving DecidableEq, Repr

def rootMismatchText (theirs ours : String) : String :=
  "cannot merge mappings rooted at `" ++ theirs ++ "` into mappings rooted at `" ++ ours ++ "`"

def SetupError.message : SetupError → String
  | .remap cause => cause.message
  | .engine cause => cause.message
  | .rootMismatch theirs ours => rootMismatchText theirs ours
  | .mappingsUnreadable path _ => "Failed to read mappings from " ++ path
  | .mergeFailed path _ _ => "Failed to merge mappings from " ++ path
  | .settingsUnreadable path _ => "Failed to read config file: " ++ path
  | .settingsMalformed => "malformed TOML"
  | .settingsRefused path => "Failed to parse config file: " ++ path
  | .unwritable path _ => "Failed to write " ++ path

/-- A step of a chain of causes. -/
inductive Cause where
  | said (message : String)
  | file (error : FileError)
  | json
  | toml
  deriving DecidableEq, Repr

def Cause.text : Cause → String
  | .said message => message
  | .file error => error.text
  | .json => "malformed JSON"
  | .toml => "malformed TOML"

def ArchiveError.causes : ArchiveError → List Cause
  | .access _ cause => [.file cause]
  | .malformed _ => [.json]
  | _ => []

def RequestError.causes : RequestError → List Cause
  | .engine _ _ cause => .said cause.message :: cause.causes
  | _ => []

def SetupError.causes : SetupError → List Cause
  | .remap cause => cause.causes
  | .engine cause => cause.causes
  | .mappingsUnreadable _ cause => [.file cause]
  | .mergeFailed _ theirs ours => [.said (rootMismatchText theirs ours)]
  | .settingsUnreadable _ cause => [.file cause]
  | .settingsRefused _ => [.toml]
  | .unwritable _ cause => [.file cause]
  | _ => []

end ArchiveRemap
