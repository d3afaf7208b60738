import TalOutline.Disk.Basic
import TalOutline.Disk.Path

/-! A directory held in memory, with paths that lead through it. -/
namespace TalOutline

inductive FileNode where
  | file (contents : ByteArray)
  | folder (nodes : List (String × FileNode))
  deriving Inhabited

namespace FileNode

def nodes : FileNode → List (String × FileNode)
  | .file _ => []
  | .folder nodes => nodes

/-- Changes what stands at a place, making the folders on the way. -/
def alter (f : Option FileNode → FileNode) : List String → Option FileNode → FileNode
  | [], node => f node
  | name :: place, node =>
    let nodes := (node.map FileNode.nodes).getD []
    .folder (nodes.filter (·.1 != name) ++ [(name, alter f place (nodes.lookup name))])

/-- Makes a folder at a place. One that is there already keeps its nodes. -/
def makeFolder (place : List String) (root : FileNode) : FileNode :=
  alter (fun node => .folder ((node.map FileNode.nodes).getD [])) place root

def writeFile (place : List String) (contents : ByteArray) (root : FileNode) : FileNode :=
  alter (fun _ => .file contents) place root

/--
Puts a file, or a folder if there are no contents, where steps lead from a place. Every place on
the way becomes a folder. A path that leaves the root puts nothing.
-/
def put (contents : Option ByteArray) (place : List String) : List Path.Step → FileNode → FileNode
  | [], root =>
    match contents with
    | none => root.makeFolder place
    | some bytes => root.writeFile place bytes
  | step :: steps, root =>
    match step.follow place with
    | none => root
    | some next => put contents next steps (root.makeFolder place)

def ofPaths (files : List (String × Option ByteArray)) : FileNode :=
  files.foldl (fun root (path, contents) => put contents [] (Path.steps path) root) (.folder [])

end FileNode

inductive Location where
  | inside (node : FileNode) (above : List FileNode) -- the folders above, innermost first
  | outside -- a directory around the one held, of which nothing else is known

namespace Location

def step : Path.Step → Location → Except ReadError Location
  | .down _, .outside => .error .missing
  | _, .outside => .ok .outside
  | _, .inside (.file _) _ => .error .notDirectory
  | .stay, .inside (.folder nodes) above => .ok (.inside (.folder nodes) above)
  | .up, .inside (.folder _) [] => .ok .outside
  | .up, .inside (.folder _) (folder :: above) => .ok (.inside folder above)
  | .down name, .inside (.folder nodes) above =>
    match nodes.lookup name with
    | none => .error .missing
    | some node => .ok (.inside node (.folder nodes :: above))

def entry : Location → Entry
  | .outside => .directory
  | .inside (.folder _) _ => .directory
  | .inside (.file contents) _ => .file contents

end Location

def FileNode.disk (root : FileNode) : Disk := fun path =>
  let start : Location := if path.toList.head? = some '/' then .outside else .inside root []
  if path.isEmpty then .missing
  else
    match (Path.steps path).foldlM (fun place step => place.step step) start with
    | .ok place => place.entry
    | .error .notDirectory => .notDirectory
    | .error _ => .missing

end TalOutline
