import ArchiveRemap.Failure

/-!
What a run tells besides its result. A notice never stops the run. The notices about single
symbols are the warnings of a hop.
-/

namespace ArchiveRemap

/-- Why a symbol of an annotation was not resolved, or is suspicious. -/
inductive WarningReason where
  | unresolved
  | ambiguous (candidates : List String)
  | foreignOwner
  | unlistedMixin
  deriving DecidableEq, Repr

structure Warning where
  className : String
  label : String
  symbol : String
  kind : WarningReason
  deriving DecidableEq, Repr

namespace Warning

def text (warning : Warning) : String :=
  let target := warning.label ++ " target `" ++ warning.symbol ++ "` in " ++
    warning.className
  match warning.kind with
  | .unresolved => "cannot resolve " ++ target
  | .ambiguous candidates =>
      "ambiguous " ++ target ++ " (candidates: " ++ String.intercalate ", " candidates ++ ")"
  | .foreignOwner => target ++ " names an owner outside the mixin targets"
  | .unlistedMixin =>
      "mixin class " ++ warning.className ++ " is not listed in any mixin config"

/-- An ambiguity as the error it is for its symbol. -/
def error? (warning : Warning) : Option RequestError :=
  match warning.kind with
  | .ambiguous candidates =>
      some (.ambiguousTarget
        (warning.label ++ " " ++ warning.symbol ++ " in " ++ warning.className)
        candidates)
  | _ => none

end Warning

inductive Notice where
  | cutOff (name root : String)
  | symbol (warning : Warning)
  | widenerCopied (path found expected : String)
  | configSkipped (path : String)
  | classKept (className existing refmap : String)
  | refmapEmptied (file : String) (count : Nat)
  deriving DecidableEq, Repr

namespace Notice

def text : Notice → String
  | .cutOff name root =>
      "Namespace `" ++ name ++ "` is not connected to root `" ++ root ++
        "`; remap requests involving it will fail"
  | .symbol warning => warning.text
  | .widenerCopied path found expected =>
      "Access widener " ++ path ++ " is written for `" ++ found ++ "`, expected `" ++
        expected ++ "`; copying it unchanged"
  | .configSkipped path => "Mixin config " ++ path ++ " is not a JSON object, skipping"
  | .classKept className existing refmap =>
      className ++ " already belongs to " ++ existing ++ ", not moving it to " ++ refmap
  | .refmapEmptied file count =>
      "Refmap " ++ file ++ " had " ++ toString count ++
        " entries but none resolved in this hop; writing it empty"

def warning? : Notice → Option Warning
  | .symbol warning => some warning
  | _ => none

/-- The symbol warnings among some notices. -/
def warnings (notices : List Notice) : List Warning := notices.filterMap warning?

end Notice

end ArchiveRemap
