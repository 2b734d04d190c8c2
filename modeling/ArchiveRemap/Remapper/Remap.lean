import ArchiveRemap.Remapper.Hop

/-!
Remapping a file. The route of a request is run hop by hop and the last artifact is copied
to the output; on an empty route the input itself is copied.
-/

namespace ArchiveRemap

structure RemapResult where
  path : List String
  output : String
  hops : List HopResult

namespace RemapResult

def warnings (report : RemapResult) : List Warning := report.hops.flatMap (·.warnings)

end RemapResult

namespace Remapper

/-- Copy a file to the output of a request. -/
def deliver (request : Request) (file output : String) : Run Unit :=
  Run.changing request.source request.target fun _ files =>
    let (result, files) := copyFile files file output
    (result, [], files)

def remap (request : Request) (input output : String) : Run RemapResult := do
  let route ← Run.route request
  let names := route.map (← get).remapper.graph.name
  let hops ← makeHops inputHop input request.source route
  deliver request (lastArtifact input hops) output
  pure ⟨names, output, hops⟩

end Remapper

end ArchiveRemap
