import ArchiveRemap.File.Tree
import ArchiveRemap.Tiny.Merge
import ArchiveRemap.Tiny.Reader

/-!
Mapping data of files. The files are merged in the order in which they are named.
-/

namespace ArchiveRemap.Tiny.Tree

def load (files : FileTree) (path : String) : Except SetupError Tree :=
  match files.read path with
  | .error cause => .error (.mappingsUnreadable path cause)
  | .ok text =>
      match Tree.parse path text with
      | .error fault => .error (.remap fault)
      | .ok tree => .ok tree

/-- Merge files into a tree. -/
def mergeFiles (files : FileTree) (tree : Tree) : List String → Except SetupError Tree
  | [] => .ok tree
  | path :: rest =>
      match load files path with
      | .error fault => .error fault
      | .ok other =>
          match tree.merge other with
          | .error (theirs, ours) => .error (.mergeFailed path theirs ours)
          | .ok merged => mergeFiles files merged rest

def loadAll (files : FileTree) (paths : List String) : Except SetupError Tree :=
  mergeFiles files .empty paths

end ArchiveRemap.Tiny.Tree
