import ArchiveRemap.CommandLine.Arguments
import ArchiveRemap.Remapper.Remap
import ArchiveRemap.Tiny.Printer

/-!
Running commands on a tree of files. A command that fails prints nothing to its output and
tells the outermost failure; the files stay as the failure leaves them.
-/

namespace ArchiveRemap.CommandLine

/-- How a line of arguments ended. -/
inductive Ending where
  | printed (text : String)
  | failed (fault : SetupError)
  | misused
  deriving DecidableEq, Repr

/-- The exit code of the program. -/
def Ending.code : Ending → Nat
  | .printed _ => 0
  | .failed _ => 1
  | .misused => 2

def linesText (lines : List String) : String := String.join (lines.map (· ++ "\n"))

def version : String := "nsremap 0.1.0"

def help : String := linesText
  ["Remap class archives between mapping namespaces", "",
   "Usage: nsremap [OPTIONS] <COMMAND>", "",
   "Commands:",
   "  remap   Remap an archive",
   "  path    Print the namespaces a remap would hop through",
   "  export  Write the mapping table of a namespace pair as Tiny v2",
   "  help    Print this message or the help of the given subcommand(s)", "",
   "Options:",
   "  -c, --config <CONFIG>  Configuration file [default: nsremap.toml]",
   "  -v, --verbose...       Increase verbosity (-v info, -vv debug, -vvv trace)",
   "  -h, --help             Print help",
   "  -V, --version          Print version"]

/-- A fallback that is not given is the namespace itself. -/
def RouteNames.request (names : RouteNames) (graph : Graph) : Except RequestError Request :=
  Request.ofNames graph names.source (names.sourceFallback.getD names.source)
    (names.targetFallback.getD names.target) names.target

/-! What the commands print. -/

def warningLine (warning : Warning) : String :=
  match warning.error? with
  | some fault => "  error: " ++ fault.message
  | none => "  warning: " ++ warning.text

def hopLines (hop : HopResult) : List String :=
  let state := if hop.cached then "cached" else "remapped"
  (hop.source ++ " -> " ++ hop.target ++ ": " ++ state) ::
    (hop.refmaps.entries.map fun (file, refmap) =>
      "  " ++ file ++ ": " ++ toString refmap.size ++ " entries") ++
    hop.warnings.map warningLine

def reportLines (report : RemapResult) : List String :=
  report.hops.flatMap hopLines ++ ["wrote " ++ report.output]

/-! The commands. -/

def remap (settings : Settings) (userCaches : Option String) (input output : String)
    (names : RouteNames) (files : FileTree) : Except SetupError String × FileTree :=
  match (Remapper.load files settings userCaches).1 with
  | .error fault => (.error fault, files)
  | .ok remapper =>
      match names.request remapper.graph with
      | .error fault => (.error (.remap fault), files)
      | .ok request =>
          match (Remapper.remap request input output).run ⟨remapper, files, []⟩ with
          | (.error fault, world) => (.error (.remap fault), world.files)
          | (.ok report, world) => (.ok (linesText (reportLines report)), world.files)

def path (settings : Settings) (names : RouteNames) : Except RequestError String := do
  let graph ← Graph.build settings.namespaces
  let request ← names.request graph
  let route ← graph.route request
  .ok (linesText [String.intercalate " -> " ((request.source :: route).map graph.name)])

/-- The table of a pair as Tiny text. -/
def tinyText (settings : Settings) (source target : String) (files : FileTree) :
    Except SetupError String :=
  match (Remapper.loadCatalog files settings.namespaces settings.mappings).1 with
  | .error fault => .error fault
  | .ok catalog =>
      let table : Except RequestError RenameTable := do
        (catalog.table (← catalog.graph.require source) (← catalog.graph.require target)).1
      match table with
      | .error fault => .error (.remap fault)
      | .ok table => .ok table.toTiny

def writeTiny (settings : Settings) (source target output : String) (files : FileTree) :
    Except SetupError String × FileTree :=
  match tinyText settings source target files with
  | .error fault => (.error fault, files)
  | .ok text =>
      match files.write output text with
      | .error cause => (.error (.unwritable output cause), files)
      | .ok files => (.ok "", files)

def run (settings : Settings) (userCaches : Option String) (files : FileTree) :
    Command → Except SetupError String × FileTree
  | .remap input output names => remap settings userCaches input output names files
  | .path names =>
      match path settings names with
      | .ok text => (.ok text, files)
      | .error fault => (.error (.remap fault), files)
  | .tiny source target output => writeTiny settings source target output files

/-- Run a line of arguments. -/
def execute (userCaches : Option String) (arguments : List String) (files : FileTree) :
    Ending × FileTree :=
  match parse? arguments with
  | none => (.misused, files)
  | some .help => (.printed help, files)
  | some .version => (.printed (linesText [version]), files)
  | some (.run settingsPath command) =>
      match Settings.load files settingsPath with
      | .error fault => (.failed fault, files)
      | .ok settings =>
          match run settings userCaches files command with
          | (.ok text, files) => (.printed text, files)
          | (.error fault, files) => (.failed fault, files)

end ArchiveRemap.CommandLine
