/-!
# Access to files

What a program has to know about the files around it: for each path the text there, or the
reason why there is none, and whether there is anything at the path at all.
-/

namespace Lineage

/-- The reason why a file cannot be read or written. -/
inductive AccessError where
  | notFound
  | isDirectory
  | notDirectory
  | denied
  | notText
deriving DecidableEq, Inhabited

/-- The text of a reason. -/
def AccessError.reason : AccessError → String
  | .notFound => "No such file or directory (os error 2)"
  | .isDirectory => "Is a directory (os error 21)"
  | .notDirectory => "Not a directory (os error 20)"
  | .denied => "Permission denied (os error 13)"
  | .notText => "stream did not contain valid UTF-8"

/-- The files that a program can look at. -/
structure Files where
  /-- The text at a path. -/
  read : String → Except AccessError String
  /-- Whether there is a file or a directory at a path. -/
  isPresent : String → Bool

end Lineage
