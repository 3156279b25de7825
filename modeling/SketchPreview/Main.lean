import SketchPreview.CommandLine.Run

/-!
The command.  All it decides is decided by `CommandLine.answer`; here arguments, files and streams
are handed in and the answer is printed.
-/

namespace SketchPreview
namespace CommandLine

def readsInput : Request → Bool
  | .transcode file _ _ => decide (file.Same standardInput)
  | _ => false

/-- The file that a request reads, if it reads one. -/
def fileRead? : Request → Option Path
  | .transcode file _ _ => if file.Same standardInput then none else some file
  | .preview _ options => options.config
  | .version | .help => none

/-- Where a path leads when it meets no links. -/
def placeOf (p : Path) : Files.Place :=
  p.components.foldl (fun place c =>
    match c with
    | .root => []
    | .current => place
    | .parent => place.tail
    | .name n => n :: place) []

/-- The tree with one entry at most, in the directories that lead to it. -/
def treeWith (place : Files.Place) (entry : Option Files.Entry) : Files.Tree where
  node? q := if q = place then entry else if q <:+ place then some (.directory 0) else none
  working := []
  clock := 1

/-- Looks at what a path names. -/
def look (p : Path) : IO (Option Files.Entry) := do
  try
    let bytes ← IO.FS.readBinFile (String.ofList p.shown)
    return some (.file bytes.toList 0)
  catch
    | .noFileOrDirectory .. => return none
    | .inappropriateType .. => return some (.directory 0)
    | e => throw e

def treeFor (request : Request) : IO Files.Tree := do
  match fileRead? request with
  | none => return treeWith [] none
  | some p => return treeWith (placeOf p) (← look p)

def inputFor (request : Request) : IO (List UInt8) := do
  if readsInput request then return (← (← IO.getStdin).readBinToEnd).toList
  return []

def printError (t : Text) : IO Unit := do (← IO.getStderr).putStr (String.ofList t)

def run (arguments : List String) : IO UInt32 := do
  match read? (arguments.map String.toList) with
  | none =>
    printError usage
    return 2
  | some request =>
    match answer (← treeFor request) (← inputFor request) request with
    | .error failure =>
      printError failure.report
      return 1
    | .ok (.print text) =>
      (← IO.getStdout).putStr (String.ofList text)
      return 0
    | .ok (.preview plan) =>
      printError (plan.sketch.shown ++ ": there is no engine here to run it\n".toList)
      return 1

end CommandLine
end SketchPreview

def main (arguments : List String) : IO UInt32 := SketchPreview.CommandLine.run arguments
