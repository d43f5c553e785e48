import Lineage.CommandLine.Failure
import Lineage.CommandLine.Invocation

/-!
# Running the program

The program loads the hierarchy that its configuration describes, looks up what it is asked
for, and answers in lines of text or in JSON.
-/

namespace Lineage.CommandLine

/-- The name and the version of the program. -/
def versionText : String := "Classgraph v0.1.0"

/-! ### Loading -/

/-- The configuration of an invocation: the one in the file, and the further descriptor
files of the workspace after those it names. -/
def Invocation.loadConfig (inv : Invocation) (files : Files) : Except LoadError Config :=
  (Config.loadOrDefault files inv.config).map fun config =>
    { config with workspaceClasses := config.workspaceClasses ++ inv.workspace }

/-- The session of an invocation. -/
def Invocation.load (inv : Invocation) (files : Files) : Except Failure Session := do
  let config ← (inv.loadConfig files).mapError .config
  let loaded ← (config.build files).mapError .build
  return loaded.session

/-- The descriptor files that an invocation calls for. -/
def Invocation.paths (inv : Invocation) (files : Files) : List String :=
  match inv.loadConfig files with
  | .error _ => []
  | .ok config => config.runtimeClasses ++ config.workspaceClasses

/-! ### Answers -/

/-- Lines of text, each ended by a line break. -/
def lines (texts : List String) : String := String.join (texts.map (· ++ "\n"))

/-- A JSON value as an answer. -/
def jsonAnswer (value : Json) : String := value.pretty ++ "\n"

/-- Names as an answer. -/
def namesAnswer (json : Bool) (names : List String) : String :=
  if json then jsonAnswer (Json.strings names) else lines names

/-- The word for the source in which a name is found. -/
def originLabel (h : Hierarchy) (name : String) : String :=
  match h.locate name with
  | some (_, .workspace) => "workspace"
  | some (_, .runtime) => "runtime"
  | none => "unresolved"

/-- The supertypes of a class and where each is found. -/
def parentsAnswer (json : Bool) (h : Hierarchy) (name : String) : String :=
  let parents := (h.supertypes name).map fun parent => (parent, originLabel h parent)
  if json then
    jsonAnswer (.array (parents.map fun entry =>
      .object [("name", .string entry.1), ("origin", .string entry.2)]))
  else lines (parents.map fun entry => entry.1 ++ "\t" ++ entry.2)

/-- The edges at a class. -/
def edgesAnswer (json : Bool) (edges : List (Edge String)) : String :=
  let edges := Edge.sorted id edges
  if json then
    jsonAnswer (.array (edges.map fun e =>
      .object [("source", .string e.source), ("target", .string e.target)]))
  else lines (edges.map Edge.text)

/-- The counts of a hierarchy, and its classes with supertypes that do not resolve. -/
def checkAnswer (json : Bool) (h : Hierarchy) : String :=
  let unresolved := h.unresolved
  if json then
    jsonAnswer (.object [
      ("runtime_classes", Json.natural h.classPath.size),
      ("unresolved", .array (unresolved.map fun entry =>
        .object [("class", .string entry.1), ("missing", Json.strings entry.2)])),
      ("workspace_classes", Json.natural h.workspace.size)])
  else
    lines ((toString h.workspace.size ++ " workspace classes, " ++
        toString h.classPath.size ++ " runtime classes, " ++
        toString unresolved.length ++ " with unresolved supertypes") ::
      unresolved.map fun entry => entry.1 ++ ": " ++ ", ".intercalate entry.2)

/-- The answer to a command in a session. -/
def answer (json : Bool) (s : Session) : Command → Except Failure String
  | .parents name => .ok (parentsAnswer json s.hierarchy name)
  | .descendants name => .ok (namesAnswer json (s.hierarchy.descendants name).toList)
  | .family name => .ok (namesAnswer json (s.hierarchy.family name).toList)
  | .edges name =>
      match s.register name with
      | none => .error (.classNotFound name)
      | some (id, s) => .ok (edgesAnswer json (s.edgeNames id))
  | .check => .ok (checkAnswer json s.hierarchy)
  | .version => .ok (lines [versionText])

/-! ### Outcomes -/

/-- How a run of the program ends. -/
inductive Outcome where
  | answered (text : String)
  | failed (failure : Failure)
  /-- The arguments make no invocation. -/
  | misused
deriving DecidableEq, Inhabited

/-- The exit code of the program. -/
def Outcome.exitCode : Outcome → Nat
  | .answered _ => 0
  | .failed _ => 1
  | .misused => 2

/-- The text on standard output. -/
def Outcome.output : Outcome → String
  | .answered text => text
  | _ => ""

/-- The outcome of an invocation.  The version is given without loading anything. -/
def Invocation.run (inv : Invocation) (files : Files) : Outcome :=
  let text : Except Failure String :=
    match inv.command with
    | .version => .ok (lines [versionText])
    | command => (inv.load files).bind fun s => answer inv.json s command
  match text with
  | .ok text => .answered text
  | .error failure => .failed failure

/-- The outcome of the program on some arguments. -/
def run (files : Files) (args : List String) : Outcome :=
  match Invocation.ofArguments args with
  | none => .misused
  | some inv => inv.run files

end Lineage.CommandLine
