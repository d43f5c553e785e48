/-!
# Refused edits

Looking names up never fails; an edit of the workspace or of a vertex can be refused, for
one of the causes below, and then changes nothing.
-/

namespace Lineage

/-- The cause for which an edit is refused. -/
inductive EditError where
  /-- The class to be edited is not in the workspace. -/
  | classNotFound (name : String)
  /-- The new name of a class is taken. -/
  | classExists (name : String)
  /-- The definition is of another class than the vertex. -/
  | nameMismatch (expected found : String)
  /-- The class would be a supertype of itself. -/
  | selfInheritance (name : String)
deriving DecidableEq, Inhabited

/-- The text of the refusal. -/
def EditError.message : EditError → String
  | .classNotFound name => "class not found in workspace: " ++ name
  | .classExists name => "class already defined in workspace: " ++ name
  | .nameMismatch expected found =>
      "descriptor for " ++ found ++ " cannot replace vertex data of " ++ expected
  | .selfInheritance name => "class " ++ name ++ " lists itself as a supertype"

end Lineage
