/-!
What can go wrong with a file.  The wording is that of the system which keeps the files.
-/

namespace SketchPreview
namespace Files

inductive Fault where
  | notFound
  /-- Only met where a program is started: it is there and may not be executed. -/
  | permissionDenied
  | alreadyExists
  | notDirectory
  | isDirectory
  | nameTooLong
  | tooManyLinks
  /-- The contents are not text. -/
  | notText
  /-- The path holds the character that ends paths. -/
  | nulInPath
deriving DecidableEq

def Fault.message : Fault → String
  | .notFound => "No such file or directory (os error 2)"
  | .permissionDenied => "Permission denied (os error 13)"
  | .alreadyExists => "File exists (os error 17)"
  | .notDirectory => "Not a directory (os error 20)"
  | .isDirectory => "Is a directory (os error 21)"
  | .nameTooLong => "File name too long (os error 36)"
  | .tooManyLinks => "Too many levels of symbolic links (os error 40)"
  | .notText => "stream did not contain valid UTF-8"
  | .nulInPath => "file name contained an unexpected NUL byte"

end Files
end SketchPreview
