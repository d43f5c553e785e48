import Lineage.Loading

/-!
# Failures of the program

A failure is reported as a headline and, below it, the causes, from the outer to the inner.
One cause is indented; several are numbered; every further line of a cause starts in the same
column as its first.
-/

namespace Lineage.CommandLine

/-- The reason why the program gives no answer. -/
inductive Failure where
  /-- The configuration cannot be loaded. -/
  | config (cause : LoadError)
  /-- The hierarchy cannot be built. -/
  | build (cause : LoadError)
  /-- There is no class of the name asked about. -/
  | classNotFound (name : String)
deriving DecidableEq, Inhabited

/-- The text with `margin` after every line break. -/
def indented (margin : String) (text : String) : String :=
  String.ofList (text.toList.flatMap fun c => if c = '\n' then '\n' :: margin.toList else [c])

/-- A cause below a headline, with its number if there are several. -/
def causeText (numbered : Bool) (index : Nat) (cause : String) : String :=
  if numbered then
    let number := toString index
    String.ofList (List.replicate (5 - number.length) ' ') ++ number ++ ": " ++
      indented "       " cause
  else "    " ++ indented "    " cause

/-- A headline and the causes below it. -/
def chainText (numbered : Bool) (headline : String) (causes : List String) : String :=
  "Error: " ++ headline ++
    (if causes.isEmpty then ""
      else "\n\nCaused by:" ++
        String.join ((causes.mapIdx (causeText numbered)).map ("\n" ++ ·)))

namespace Failure

/-- The report of a failure. -/
def report : Failure → String
  | .config cause => chainText false cause.message [cause.reason] ++ "\n"
  | .build cause =>
      chainText true "Failed to build class hierarchy" [cause.message, cause.reason] ++ "\n"
  | .classNotFound name => chainText false ("Class not found: " ++ name) [] ++ "\n"

/-- The report up to the reason, where that is a matter of how a text is read. -/
def outline (f : Failure) : String :=
  match f with
  | .config cause => if cause.isAboutText then chainText false cause.subject [] else f.report
  | .build cause =>
      if cause.isAboutText then
        chainText true "Failed to build class hierarchy" [cause.subject]
      else f.report
  | .classNotFound _ => f.report

end Failure

end Lineage.CommandLine
