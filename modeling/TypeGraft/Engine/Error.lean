/-
  What can go wrong with a type engine.

  Key definitions include:
    * `EngineError`
    * `EngineError.message`
    * `EngineError.isUnavailable`
-/

namespace TypeGraft

/- Why an engine gave no answer. -/
inductive EngineError where
  /- There is no engine at any of the places searched. -/
  | notFound (searched : String)
  /- The engine could not be started. -/
  | spawnFailed (program reason : String)
  /- The engine reported failure. -/
  | nonZeroExit (command status stderr : String)
  /- The answer does not have the shape of an answer. -/
  | malformed (message : String)
  /- The engine did not answer in time. -/
  | timeout (command : String) (seconds : Nat)
  /- A file could not be read. -/
  | io (reason : String)
  /- The answer is not JSON. -/
  | json
deriving DecidableEq, Repr

namespace EngineError

/- The message of an error. -/
def message : EngineError → String
  | .notFound searched =>
      s!"flow binary not found ({searched})"
  | .spawnFailed program reason =>
      s!"failed to start `{program}`: {reason}"
  | .nonZeroExit command status stderr =>
      s!"`{command}` exited with {status}: {stderr}"
  | .malformed message =>
      s!"malformed engine output: {message}"
  | .timeout command seconds =>
      s!"`{command}` timed out after {seconds}s"
  | .io reason => s!"IO error: {reason}"
  | .json => "JSON error"

/- Does the error mean that no call at all can succeed? -/
def isUnavailable : EngineError → Bool
  | .notFound _ => true
  | .spawnFailed _ _ => true
  | _ => false

end EngineError

end TypeGraft
