import Lineage.Files.Path
import Lineage.Hierarchy.Basic
import Lineage.Toml.Reader

/-!
# Configurations

A configuration names the descriptor files of the workspace and of the class path, and has
two switches.  It is written in TOML in three sections, all of them optional and with other
keys ignored.  A section may also be written as an array of its settings in their order, of
which the last ones may be missing.  Relative paths in a configuration file start at the
directory of the file.
-/

namespace Lineage

/-- What a hierarchy is to be built from. -/
structure Config where
  /-- The descriptor files of the workspace. -/
  workspaceClasses : List String
  /-- Whether the class path has the platform classes. -/
  platform : Bool
  /-- The descriptor files of the class path. -/
  runtimeClasses : List String
  /-- Whether classes of the class path count among descendants. -/
  runtimeDescendants : Bool
deriving DecidableEq, Inhabited

namespace Config

/-- The configuration without any setting. -/
def default : Config := ⟨[], true, [], false⟩

/-- The name of the configuration file that is looked for. -/
def defaultPath : String := "classgraph.toml"

/-- The settings of the hierarchy. -/
def options (c : Config) : Options := ⟨c.runtimeDescendants⟩

/-! ### Sections -/

/-- The values of the settings of a section, or of those that it has; none if it cannot be a
section. -/
def settings (keys : List String) : Option Toml → Option (List (Option Toml))
  | none => some (keys.map fun _ => none)
  | some (.table _ entries) => some (keys.map fun key => entries.lookup key)
  | some (.array items) => some (keys.mapIdx fun i _ => items[i]?)
  | some (.tables items) => some (keys.mapIdx fun i _ => items[i]?)
  | some (.moment _) => some (keys.map fun _ => none)
  | some _ => none

/-- A truth value, or another one where there is none. -/
def boolean (otherwise : Bool) : Option Toml → Option Bool
  | none => some otherwise
  | some (.boolean value) => some value
  | some _ => none

/-- A string. -/
def string? : Toml → Option String
  | .string value => some value
  | _ => none

/-- A list of strings, or the empty one where there is none. -/
def strings : Option Toml → Option (List String)
  | none => some []
  | some (.array items) => items.mapM string?
  | some _ => none

/-- The configuration that the entries of a document make. -/
def ofEntries (entries : Toml.Entries) : Option Config := do
  let workspace ← settings ["classes"] (entries.lookup "workspace")
  let runtime ← settings ["platform", "classes"] (entries.lookup "runtime")
  let index ← settings ["runtime_descendants"] (entries.lookup "index")
  match workspace, runtime, index with
  | [workspaceClasses], [platform, runtimeClasses], [runtimeDescendants] => do
      return ⟨← strings workspaceClasses, ← boolean true platform, ← strings runtimeClasses,
        ← boolean false runtimeDescendants⟩
  | _, _, _ => none

/-- The configuration that a text holds. -/
def ofText (text : String) : Option Config := (Toml.ofText text).bind ofEntries

/-- The configuration with its relative paths made to start at a directory. -/
def rebase (c : Config) (directory : String) : Config :=
  { c with
    workspaceClasses := c.workspaceClasses.map (Path.join directory)
    runtimeClasses := c.runtimeClasses.map (Path.join directory) }

end Config

end Lineage
