import Lineage.Config
import Lineage.Files.Tree
import Lineage.Interchange
import Lineage.Session.Edits

/-!
# Loading a hierarchy

A session is loaded from a configuration: first the files of the class path are read, then
the files of the workspace one after the other, and the classes of each are put into the
workspace like any edit.  Loading stops at the first problem it meets, and the problem names
the file.
-/

namespace Lineage

/-- The problem at which loading stops. -/
inductive LoadError where
  /-- A file cannot be read or written. -/
  | access (path : String) (cause : AccessError)
  /-- A file does not hold a list of descriptors. -/
  | descriptors (path : String) (cause : Json.Fault)
  /-- A file does not hold a configuration. -/
  | config (path : String)
  /-- A class of a file is refused. -/
  | refused (path : String) (cause : EditError)
deriving DecidableEq, Inhabited

namespace LoadError

/-- What went wrong, and with which file. -/
def subject : LoadError → String
  | .access path _ => "failed to read " ++ path
  | .descriptors path _ => "invalid descriptor file " ++ path
  | .config path => "invalid config " ++ path
  | .refused path _ => "cannot load classes from " ++ path

/-- The reason why it went wrong. -/
def reason : LoadError → String
  | .access _ cause => cause.reason
  | .descriptors _ cause => cause.message
  | .config _ => "malformed TOML"
  | .refused _ cause => cause.message

/-- The text of a problem. -/
def message (e : LoadError) : String := e.subject ++ ": " ++ e.reason

/-- Whether the reason is a matter of how a text is read, and not of the file or its
classes. -/
def isAboutText : LoadError → Bool
  | .descriptors _ _ => true
  | .config _ => true
  | _ => false

end LoadError

/-! ### Configurations -/

namespace Config

/-- The configuration in the file at a path. -/
def load (files : Files) (path : String) : Except LoadError Config :=
  match files.read path with
  | .error cause => .error (.access path cause)
  | .ok text =>
      match ofText text with
      | none => .error (.config path)
      | some config => .ok (config.rebase (Path.parent path))

/-- The configuration in the file at a path, if there is anything there, and otherwise the
default. -/
def loadOrDefault (files : Files) (path : String) : Except LoadError Config :=
  if files.isPresent path then load files path else .ok default

end Config

/-! ### Descriptor files -/

/-- The descriptors in the file at a path. -/
def readDescriptors (files : Files) (path : String) : Except LoadError (List Descriptor) :=
  match files.read path with
  | .error cause => .error (.access path cause)
  | .ok text => (Descriptor.listOfText text).mapError (.descriptors path)

/-- The text of a descriptor file. -/
def descriptorText (descriptors : List Descriptor) : String :=
  (Descriptor.listToJson descriptors).pretty

/-- The tree with the file at a path holding some descriptors. -/
def writeDescriptors (tree : FileTree) (path : String) (descriptors : List Descriptor) :
    Except LoadError FileTree :=
  (tree.write path (descriptorText descriptors)).mapError (.access path)

/-! ### Sessions -/

/-- The counts of what was loaded. -/
structure Summary where
  workspaceClasses : Nat
  runtimeClasses : Nat
  /-- The number of workspace definitions that took the place of an earlier one. -/
  redefined : Nat
deriving DecidableEq, Inhabited

/-- A session being loaded, and the number of redefinitions so far. -/
structure Loaded where
  session : Session
  redefined : Nat

namespace Loaded

/-- Put a class of the file at a path into the workspace. -/
def addClass (path : String) (l : Loaded) (d : Descriptor) : Except LoadError Loaded :=
  match l.session.put d with
  | .error cause => .error (.refused path cause)
  | .ok (diff, session) =>
      .ok ⟨session, if diff.addedClasses.isEmpty then l.redefined + 1 else l.redefined⟩

/-- Put the classes of the file at a path into the workspace. -/
def addFile (files : Files) (l : Loaded) (path : String) : Except LoadError Loaded := do
  (← readDescriptors files path).foldlM (addClass path) l

/-- The counts of a session that has been loaded. -/
def summary (l : Loaded) : Summary :=
  ⟨l.session.workspace.size, l.session.classPath.size, l.redefined⟩

end Loaded

/-- The session that a configuration describes, and the counts of what was loaded. -/
def Config.build (files : Files) (config : Config) : Except LoadError Loaded := do
  let runtime ← config.runtimeClasses.mapM (readDescriptors files)
  let classPath := ClassPath.assemble config.platform runtime.flatten
  config.workspaceClasses.foldlM (Loaded.addFile files)
    ⟨Session.start ∅ classPath config.options, 0⟩

end Lineage
