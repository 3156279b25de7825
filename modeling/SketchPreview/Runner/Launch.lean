import SketchPreview.Config.Basic
import SketchPreview.Files.Walk
import SketchPreview.Text.Search

/-!
Starting the command that runs a staged sketch: the arguments it gets, and what keeps it from
starting.
-/

namespace SketchPreview
namespace Runner

/-- An argument with the sketch's directory and the size of the surface filled in.  The placeholders
are replaced one kind after another, so a text filled in earlier is searched for the later kinds.
-/
def fillIn (directory : Path) (d : Sketch.Dimensions) (argument : Text) : Text :=
  let argument := Text.replaceAll "\x7bsketch\x7d".toList directory.shown argument
  let argument := Text.replaceAll "\x7bwidth\x7d".toList (Text.decimal d.width.toNat) argument
  Text.replaceAll "\x7bheight\x7d".toList (Text.decimal d.height.toNat) argument

/-- The arguments that a command gets for a sketch. -/
def argumentsFor (c : Command) (directory : Path) (d : Sketch.Dimensions) : List Text :=
  c.arguments.map (fillIn directory d)

/-- Why a program does not start. -/
inductive Fault where
  /-- The program's name or an argument holds the character that ends them. -/
  | nulInData
  | file (f : Files.Fault)
deriving DecidableEq

def Fault.message : Fault → String
  | .nulInData => "nul byte found in provided data"
  | .file f => f.message

/-- Why a program in none of the directories that are searched does not start by its bare name. -/
def bareNameFault (name : Text) : Files.Fault :=
  if name == ['.'] || name == ['.', '.'] then .permissionDenied
  else if Files.longestName < Text.byteSize name then .nameTooLong
  else .notFound

/-- Why a program that may not be executed does not start, when it is named by a path. -/
def pathFault (tree : Files.Tree) (path : Path) : Files.Fault :=
  match tree.find .target path with
  | .error f => f
  | .ok (.vacant _) => .notFound
  | .ok _ => .permissionDenied

/-- Why a program does not start that is neither among the commands known to the system nor
executable. -/
def startFault (tree : Files.Tree) (program : Text) (arguments : List Text) : Fault :=
  if (program :: arguments).any (·.contains '\x00') then .nulInData
  else if program.contains '/' then .file (pathFault tree (Path.ofText program))
  else .file (bareNameFault program)

end Runner
end SketchPreview
