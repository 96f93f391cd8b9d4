import TypeGraft.Engine.Error
import TypeGraft.Tree.Import

/-
  What can make a whole merge fail, and the exit codes of the
  program.

  Key definitions include:
    * `MergeError`
    * `MergeError.message`
    * `MergeError.exitCode`
    * `MergeError.isPrecondition`
    * `EngineError.asMergeError`
    * `TreeError.asMergeError`
-/

namespace TypeGraft

/- Why there is no merged tree. -/
inductive MergeError where
  | invalidArguments (message : String)
  | engineUnavailable (engine reason : String)
  | engineFailed (engine message : String)
  | invalidTree (message : String)
  | fileNotFound (path : String)
  | config (message : String)
  | internal (message : String)
deriving DecidableEq, Repr

namespace MergeError

/- The message of an error. -/
def message : MergeError → String
  | .invalidArguments message =>
      s!"invalid arguments: {message}"
  | .engineUnavailable engine reason =>
      s!"{engine} is unavailable: {reason}"
  | .engineFailed engine message =>
      s!"{engine} call failed: {message}"
  | .invalidTree message => s!"invalid syntax tree: {message}"
  | .fileNotFound path => s!"file not found: {path}"
  | .config message => s!"configuration error: {message}"
  | .internal message => s!"internal error: {message}"

/- The exit code of the program after an error. -/
def exitCode : MergeError → Nat
  | .invalidArguments _ => 2
  | .engineUnavailable _ _ => 3
  | .engineFailed _ _ => 4
  | .invalidTree _ => 5
  | .fileNotFound _ => 5
  | .config _ => 5
  | .internal _ => 10

/- Was the engine found unusable before any question? -/
def isPrecondition : MergeError → Bool
  | .engineUnavailable _ _ => true
  | _ => false

end MergeError

/- An engine's error that ends a merge. -/
def EngineError.asMergeError
    (e : EngineError)
    (engine : String) : MergeError :=
  if e.isUnavailable then .engineUnavailable engine e.message
  else .engineFailed engine e.message

/- A tree's error that ends a merge. -/
def TreeError.asMergeError
    (e : TreeError) : MergeError :=
  .invalidTree e.message

end TypeGraft
