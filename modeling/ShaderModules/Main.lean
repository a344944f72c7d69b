import ShaderModules.Application
import ShaderModules.Shell.Launch

/-!
# The command line

The program works on a picture of the files that it may need: those in and below the working
directory, those that its arguments name, and the configuration files in the directories above.
When it has ended, the files that differ from the picture are written.
-/

open ShaderModules

namespace CommandLine

/-- How deep directories are searched. -/
def maxDepth : Nat := 40

/-- The names on the way from the root to a path, as seen from a directory. -/
def namesFrom (here : List String) (path : String) : List String :=
  (FileTree.namesOf path).foldl (fun names n =>
    if n = "." then names else if n = ".." then names.dropLast else names ++ [n])
    (if Path.isAbsolute path then [] else here)

/-- Whether contents start with the name of an interpreter. -/
def isScript (contents : ByteArray) : Bool := contents.toList.take 2 == [35, 33]

/-- The tree with the file or the directory at a place, and what is below it. -/
def pictured (tree : FileTree) (names : List String) : Nat → IO FileTree
  | 0 => return tree
  | depth + 1 => do
    let path := (← IO.currentDir) / FileTree.pathOf names
    if ← path.isDir then
      let entries ← path.readDir
      entries.foldlM (fun tree e => pictured tree (names ++ [e.fileName]) depth)
        (tree.place names .directory)
    else match ← (IO.FS.readBinFile path).toBaseIO with
      | .ok contents => return tree.place names (.file contents (isScript contents))
      | .error _ => return tree

/-- The environment variables. -/
def environment : IO (List (String × String)) := do
  match ← (IO.FS.readBinFile "/proc/self/environ").toBaseIO with
  | .error _ => return []
  | .ok bytes =>
    return (Text.splitAt '\x00' (Text.lossy bytes).toList).filterMap fun entry =>
      let name := entry.takeWhile (· ≠ '=')
      if name.length < entry.length then
        some (String.ofList name, String.ofList (entry.drop (name.length + 1)))
      else none

/-- The picture for a command line. -/
def picture (args : List String) : IO FileTree := do
  let here := FileTree.namesOf (← IO.currentDir).toString
  let start := (FileTree.mk [] []).place here .directory
  let tree ← pictured { start with workDir := here } here maxDepth
  let above := (List.range here.length).map fun n => here.take n ++ [configFileName]
  let named := args.map (namesFrom here)
  (above ++ named).foldlM (fun tree names =>
    if (tree.node? names).isSome then return tree else pictured tree names maxDepth) tree

end CommandLine

def main (args : List String) : IO UInt32 := do
  let before ← CommandLine.picture args
  let done := Application.run Shell.launch before (← CommandLine.environment) args
  for (names, contents) in done.tree.changedSince before do
    IO.FS.createDirAll (FileTree.pathOf names.dropLast)
    IO.FS.writeBinFile (FileTree.pathOf names) contents
  IO.print done.output
  IO.eprint done.diagnostics
  return done.code.toUInt32
