/-!
# Paths

A path is a text of components separated by slashes; one that starts with a slash is
absolute.  Paths are shown as they were put together: nothing is taken out of them but, when
the last component is dropped, the slashes and single dots right before it.
-/

namespace Lineage.Path

/-- The pieces of a path between slashes. -/
def pieces (text : List Char) : List (List Char) :=
  match text with
  | [] => [[]]
  | '/' :: rest => [] :: pieces rest
  | c :: rest =>
      match pieces rest with
      | [] => [[c]]
      | piece :: more => (c :: piece) :: more

/-- Pieces put together with slashes between them. -/
def unsplit : List (List Char) → List Char
  | [] => []
  | [piece] => piece
  | piece :: more => piece ++ '/' :: unsplit more

/-- Whether a piece stands for no step: it is empty or a single dot. -/
def isVoid (piece : List Char) : Bool := piece = [] || piece = ['.']

/-- The components of a path: its pieces but for those that stand for no step. -/
def components (path : String) : List (List Char) :=
  (pieces path.toList).filter (!isVoid ·)

/-- Whether a path starts at the root. -/
def isAbsolute (path : String) : Bool := path.toList.head? = some '/'

/-- The pieces up to the last that stands for a step. -/
def dropVoid (ps : List (List Char)) : List (List Char) :=
  (ps.reverse.dropWhile isVoid).reverse

/-- What a path keeps in front of its pieces: the root, a single dot, or nothing. -/
def splitStart (text : List Char) : List Char × List Char :=
  match text with
  | '/' :: rest => (['/'], rest)
  | ['.'] => (['.'], [])
  | '.' :: '/' :: rest => (['.'], '/' :: rest)
  | text => ([], text)

/-- The path without its last component, and without what stands for no step before it;
nothing if there is no component to drop. -/
def parent (path : String) : String :=
  let (start, rest) := splitStart path.toList
  let ps := dropVoid (pieces rest)
  if ps = [] then ""
  else String.ofList (start ++ unsplit (dropVoid ps.dropLast))

/-- The path that leads from `base` on along `path`. -/
def join (base path : String) : String :=
  if isAbsolute path then path
  else if base = "" ∨ base.toList.getLast? = some '/' then base ++ path
  else base ++ "/" ++ path

end Lineage.Path
