/-!
# Errors of the operating system

* `OsError`: the ways in which a file operation or the start of a program fails.
* `OsError.message`: their texts.
-/

namespace ShaderModules

/-- Why the operating system refuses an operation. -/
inductive OsError where
  | notFound
  | badExecutable
  | permissionDenied
  | exists
  | notDirectory
  | isDirectory
  | nameTooLong
  | notEmpty
  | tooManyLinks
  /-- The bytes of a file are not UTF-8. -/
  | notText
  /-- A path holds the null character. -/
  | nulInPath
  /-- A program name or an argument holds the null character. -/
  | nulInArgument
  deriving DecidableEq, Repr

/-- The text of an error. -/
def OsError.message : OsError → String
  | .notFound => "No such file or directory (os error 2)"
  | .badExecutable => "Exec format error (os error 8)"
  | .permissionDenied => "Permission denied (os error 13)"
  | .exists => "File exists (os error 17)"
  | .notDirectory => "Not a directory (os error 20)"
  | .isDirectory => "Is a directory (os error 21)"
  | .nameTooLong => "File name too long (os error 36)"
  | .notEmpty => "Directory not empty (os error 39)"
  | .tooManyLinks => "Too many levels of symbolic links (os error 40)"
  | .notText => "stream did not contain valid UTF-8"
  | .nulInPath => "file name contained an unexpected NUL byte"
  | .nulInArgument => "nul byte found in provided data"

end ShaderModules
