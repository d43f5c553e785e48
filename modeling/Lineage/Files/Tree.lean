import Lineage.Files.Access
import Lineage.Files.Path

/-!
# File trees

A tree of directories and files, looked at from its root.  A path leads from directory to
directory, two dots lead up, and above the root there are directories without anything known
in them.  Writing replaces a file or makes a new one in a directory that is there.
-/

namespace Lineage

/-- A file with its bytes, or a directory with its entries. -/
inductive FileTree where
  | file (bytes : ByteArray)
  | directory (entries : List (List Char × FileTree))
deriving Inhabited

namespace FileTree

/-- The directory without an entry. -/
def empty : FileTree := .directory []

/-- What is found at the end of a list of names. -/
def find? : FileTree → List (List Char) → Option FileTree
  | tree, [] => some tree
  | .file _, _ :: _ => none
  | .directory entries, name :: names =>
      match entries.lookup name with
      | none => none
      | some tree => find? tree names

/-- The tree with another one at the end of a list of names, and directories on the way. -/
def insert (tree new : FileTree) : List (List Char) → FileTree
  | [] => new
  | name :: names =>
      let entries := match tree with
        | .file _ => []
        | .directory entries => entries
      let inner := insert ((entries.lookup name).getD empty) new names
      .directory ((name, inner) :: entries.filter (·.1 ≠ name))

/-- The tree with a directory at the end of a list of names, and all that is in it. -/
def addDirectory (tree : FileTree) (names : List (List Char)) : FileTree :=
  match tree.find? names with
  | some (.directory _) => tree
  | _ => tree.insert empty names

/-- A place that a path leads to: in the tree, by the names on the way down, or a directory
above it. -/
inductive Place where
  | inside (names : List (List Char))
  | above
deriving DecidableEq, Inhabited

/-- Whether there is a directory at a place. -/
def isDirectory (tree : FileTree) : Place → Bool
  | .above => true
  | .inside names =>
      match tree.find? names with
      | some (.directory _) => true
      | _ => false

/-- The place one piece of a path further. -/
def step (tree : FileTree) (place : Place) (piece : List Char) : Except AccessError Place :=
  if !tree.isDirectory place then .error .notDirectory
  else if Path.isVoid piece then .ok place
  else
    match place with
    | .above => if piece = ['.', '.'] then .ok .above else .error .notFound
    | .inside names =>
        if piece = ['.', '.'] then
          .ok (if names = [] then .above else .inside names.dropLast)
        else if (tree.find? (names ++ [piece])).isSome then .ok (.inside (names ++ [piece]))
        else .error .notFound

/-- The place where a path starts. -/
def origin (text : List Char) : Place :=
  if text.head? = some '/' then .above else .inside []

/-- The place that a path leads to. -/
def locate (tree : FileTree) (path : String) : Except AccessError Place :=
  if path = "" then .error .notFound
  else (Path.pieces path.toList).foldlM tree.step (origin path.toList)

/-- The text of the file at a path. -/
def read (tree : FileTree) (path : String) : Except AccessError String := do
  match ← tree.locate path with
  | .above => .error .isDirectory
  | .inside names =>
      match tree.find? names with
      | some (.file bytes) =>
          match String.fromUTF8? bytes with
          | some text => .ok text
          | none => .error .notText
      | _ => .error .isDirectory

/-- Whether there is anything at a path. -/
def isPresent (tree : FileTree) (path : String) : Bool := (tree.locate path).toOption.isSome

/-- The files of the tree. -/
def files (tree : FileTree) : Files := ⟨tree.read, tree.isPresent⟩

/-- The tree with a text in the file at a path. -/
def write (tree : FileTree) (path text : String) : Except AccessError FileTree :=
  if path = "" then .error .notFound
  else do
    let ps := Path.pieces path.toList
    let slashes := ps.reverse.takeWhile (· = [])
    let stem := (ps.reverse.dropWhile (· = [])).reverse
    let place ← stem.dropLast.foldlM tree.step (origin path.toList)
    if !tree.isDirectory place then .error .notDirectory
    else
      match stem.getLast?, place with
      | none, _ => .error .isDirectory
      | some name, .above =>
          .error (if Path.isVoid name ∨ name = ['.', '.'] ∨ slashes ≠ [] then .isDirectory
            else .notFound)
      | some name, .inside names =>
          let target := names ++ [name]
          if Path.isVoid name ∨ name = ['.', '.'] ∨ slashes ≠ [] ∨
              tree.isDirectory (.inside target) then
            .error .isDirectory
          else .ok (tree.insert (.file text.toUTF8) target)

end FileTree

end Lineage
