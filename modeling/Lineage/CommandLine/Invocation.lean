import Lineage.Config

/-!
# Invocations of the program

The arguments of the program are options, then a command, and then what the command is about.
Options have a long name, and some a short one; short options may be joined in one argument,
of which the last may be followed by its value.  Arguments that do not make an invocation are
a misuse of the program.
-/

namespace Lineage.CommandLine

/-- What the program is asked for. -/
inductive Command where
  | parents (name : String)
  | descendants (name : String)
  | edges (name : String)
  | family (name : String)
  | check
  | version
deriving DecidableEq, Inhabited

/-- The options of the program, as far as they are given. -/
structure Settings where
  config : Option String
  workspace : List String
  verbose : Bool
  json : Bool
deriving DecidableEq, Inhabited

/-- What the arguments of the program say. -/
structure Invocation where
  command : Command
  /-- The path of the configuration file. -/
  config : String
  /-- The descriptor files of the workspace on top of those in the configuration. -/
  workspace : List String
  verbose : Bool
  /-- Whether to answer in JSON. -/
  json : Bool
deriving DecidableEq, Inhabited

namespace Settings

/-- The settings before any option. -/
def initial : Settings := ⟨none, [], false, false⟩

/-- The switches. -/
inductive Switch where
  | verbose
  | json

/-- The options that have a value. -/
inductive Valued where
  | config
  | workspace

/-- The settings with a switch, which can be given once. -/
def turn (s : Settings) : Switch → Option Settings
  | .verbose => if s.verbose then none else some { s with verbose := true }
  | .json => if s.json then none else some { s with json := true }

/-- The settings with a value, which is not empty; there can be only one configuration. -/
def give (s : Settings) (option : Valued) (value : String) : Option Settings :=
  if value = "" then none
  else
    match option with
    | .config => if s.config.isSome then none else some { s with config := some value }
    | .workspace => some { s with workspace := s.workspace ++ [value] }

end Settings

/-- The meaning of an argument that is an option: settings, or settings that want the next
argument as a value. -/
inductive Step where
  | done (settings : Settings)
  | wants (settings : Settings) (option : Settings.Valued)

/-- A long option, without its dashes, up to an equals sign and after it. -/
def longOption (s : Settings) (name : List Char) (value : Option (List Char)) : Option Step :=
  let valued (option : Settings.Valued) : Option Step :=
    match value with
    | none => some (.wants s option)
    | some value => (s.give option (String.ofList value)).map .done
  let switch (option : Settings.Switch) : Option Step :=
    if value.isSome then none else (s.turn option).map .done
  match String.ofList name with
  | "config" => valued .config
  | "workspace" => valued .workspace
  | "verbose" => switch .verbose
  | "json" => switch .json
  | _ => none

/-- The value joined to a short option: what follows it, without an equals sign in front. -/
def joinedValue : List Char → List Char
  | '=' :: rest => rest
  | rest => rest

/-- Joined short options, without their dash. -/
def shortOptions (s : Settings) : List Char → Option Step
  | [] => some (.done s)
  | 'v' :: rest => do shortOptions (← s.turn .verbose) rest
  | c :: rest =>
      let valued (option : Settings.Valued) : Option Step :=
        if rest.isEmpty then some (.wants s option)
        else (s.give option (String.ofList (joinedValue rest))).map .done
      match c with
      | 'c' => valued .config
      | 'w' => valued .workspace
      | _ => none

/-- Whether an argument is read as an option: it starts with a dash and is not just one. -/
def isOption (arg : List Char) : Bool := arg.head? = some '-' && arg ≠ ['-']

/-- The one argument that a command is about, possibly after two dashes. -/
def operands : List String → Option (List String)
  | [] => some []
  | arg :: rest =>
      if arg = "--" then some rest
      else if isOption arg.toList then none
      else (operands rest).map (arg :: ·)

/-- The command with a name and the arguments after it. -/
def command (name : String) (args : List String) : Option Command := do
  match name, ← operands args with
  | "parents", [about] => some (.parents about)
  | "descendants", [about] => some (.descendants about)
  | "edges", [about] => some (.edges about)
  | "family", [about] => some (.family about)
  | "check", [] => some .check
  | "version", [] => some .version
  | _, _ => none

/-- The invocation that arguments make, given the settings so far and the option that still
wants its value. -/
def invocation (s : Settings) (wanting : Option Settings.Valued) :
    List String → Option Invocation
  | [] => none
  | arg :: rest =>
      let proceed : Option Step → Option Invocation
        | none => none
        | some (.done s) => invocation s none rest
        | some (.wants s option) => invocation s (some option) rest
      match wanting, arg.toList with
      | some option, text =>
          if isOption text then none else proceed ((s.give option arg).map .done)
      | none, '-' :: '-' :: text =>
          proceed (longOption s (text.takeWhile (· ≠ '='))
            ((text.dropWhile (· ≠ '=')).head?.map fun _ => (text.dropWhile (· ≠ '=')).drop 1))
      | none, text =>
          if isOption text then proceed (shortOptions s (text.drop 1))
          else (command arg rest).map fun command =>
            ⟨command, s.config.getD Config.defaultPath, s.workspace, s.verbose, s.json⟩

/-- The invocation that the arguments of the program make. -/
def Invocation.ofArguments (args : List String) : Option Invocation :=
  invocation .initial none args

end Lineage.CommandLine
