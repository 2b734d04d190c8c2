import ArchiveRemap.Keyed
import ArchiveRemap.Text.Cut

/-!
Arguments of the command line. Options come before or after the name of the command, each
at most once on either side; what stands nearer to the command wins. A value follows its
option or is attached to it, and a value of its own must not look like an option.
-/

namespace ArchiveRemap.CommandLine

/-- The namespaces that a command goes between. -/
structure RouteNames where
  source : String
  sourceFallback : Option String
  target : String
  targetFallback : Option String
  deriving DecidableEq, Repr

inductive Command where
  | remap (input output : String) (route : RouteNames)
  | path (route : RouteNames)
  | tiny (source target output : String)
  deriving DecidableEq, Repr

/-- What a line of arguments asks for. -/
inductive Invocation where
  | run (settings : String) (command : Command)
  | help
  | version
  deriving DecidableEq, Repr

/-- What stands on one side of the name of a command: options with their values, and then
the next word with the arguments after it. -/
inductive Side where
  | options (given : Keyed String String) (next : Option (String × List String))
  | help
  | version
  deriving DecidableEq, Repr

/-- Options whose values are paths, which are never empty. -/
def pathOptions : List String := ["config", "input", "output"]

/-- Add an option, which must be known and must not be there yet. -/
def give (known : List String) (name value : String) (given : Keyed String String) :
    Option (Keyed String String) :=
  if name ∉ known || given.has name || (name ∈ pathOptions && value = "") then none
  else some (given.put name value)

/-- What an argument does. -/
inductive Effect where
  | word
  | endOptions
  | counted
  | attached (name value : String)
  | wantsValue (name : String)
  | help
  | version
  deriving DecidableEq, Repr

/-- The letters after a single dash, up to one that takes a value. -/
def lettersEffect? : List Char → Option Effect
  | [] => some .counted
  | 'v' :: rest => lettersEffect? rest
  | 'h' :: _ => some .help
  | 'V' :: _ => some .version
  | ['c'] => some (.wantsValue "config")
  | 'c' :: '=' :: rest => some (.attached "config" (String.ofList rest))
  | 'c' :: rest => some (.attached "config" (String.ofList rest))
  | _ => none

def effect? (argument : String) : Option Effect :=
  match argument.toList with
  | ['-', '-'] => some .endOptions
  | '-' :: '-' :: text =>
      match Text.cut '=' text with
      | some (name, value) => some (.attached (String.ofList name) (String.ofList value))
      | none =>
          if text = "help".toList then some .help
          else if text = "version".toList then some .version
          else if text = "verbose".toList then some .counted
          else some (.wantsValue (String.ofList text))
  | '-' :: c :: text => lettersEffect? (c :: text)
  | _ => some .word

/-- Read one side of the line. Words and the version belong to the top, which is the side
before the command. -/
def readSide (onTop : Bool) (known : List String) (given : Keyed String String) :
    List String → Option Side
  | [] => some (.options given none)
  | argument :: rest =>
      match effect? argument with
      | none => none
      | some .word => if onTop then some (.options given (some (argument, rest))) else none
      | some .endOptions => if rest.isEmpty then some (.options given none) else none
      | some .counted => readSide onTop known given rest
      | some (.attached name value) =>
          match give known name value given with
          | some given => readSide onTop known given rest
          | none => none
      | some (.wantsValue name) =>
          match rest with
          | [] => none
          | value :: rest =>
              match effect? value, give known name value given with
              | some .word, some given => readSide onTop known given rest
              | _, _ => none
      | some .help => some .help
      | some .version => if onTop then some .version else none

/-! Commands. -/

def routeOptions : List String := ["from", "from-fallback", "to", "to-fallback"]

/-- The options of a command besides those that every command has. -/
def optionsOf? : String → Option (List String)
  | "remap" => some ("input" :: "output" :: routeOptions)
  | "path" => some routeOptions
  | "export" => some ["from", "to", "output"]
  | _ => none

def route? (given : Keyed String String) : Option RouteNames := do
  some ⟨← given.get? "from", given.get? "from-fallback", ← given.get? "to",
    given.get? "to-fallback"⟩

/-- A command with its options; those that are required have to be there. -/
def command? (name : String) (given : Keyed String String) : Option Command :=
  match name with
  | "remap" => do
      some (.remap (← given.get? "input") (← given.get? "output") (← route? given))
  | "path" => (route? given).map .path
  | "export" => do
      some (.tiny (← given.get? "from") (← given.get? "to") (← given.get? "output"))
  | _ => none

/-- Help may be asked for on one command. -/
def help? : List String → Option Invocation
  | [] => some .help
  | [topic] => if topic = "help" || (optionsOf? topic).isSome then some .help else none
  | _ => none

/-- What the arguments ask for, if they are well formed. -/
def parse? (arguments : List String) : Option Invocation := do
  match ← readSide true ["config"] [] arguments with
  | .help => some .help
  | .version => some .version
  | .options _ none => none
  | .options general (some (name, rest)) =>
      if name = "help" then help? rest
      else
        match ← readSide false ("config" :: (← optionsOf? name)) [] rest with
        | .help => some .help
        | .version => some .version
        | .options given _ =>
            let settings :=
              ((given.get? "config").or (general.get? "config")).getD "nsremap.toml"
            (command? name given).map (.run settings)

end ArchiveRemap.CommandLine
