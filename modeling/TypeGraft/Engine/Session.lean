import TypeGraft.Engine.Dialogue
import TypeGraft.Engine.Locate
import TypeGraft.Engine.Settings
import TypeGraft.Json.Reader

/-
  Calling Flow.

  The program is found on the first call and kept for all
  later ones.

  Key definitions include:
    * `ProcessEnd`
    * `ProcessReply`
    * `signalText`
    * `StartError`
    * `Workspace`
    * `Workspace.start`
    * `Workspace.call`
    * `FlowSession`
    * `FlowSession.engine`
-/

namespace TypeGraft

------------------------------------------------------------
-- Processes
------------------------------------------------------------

/- How a process ends. -/
inductive ProcessEnd where
  | exit (code : Nat)
  | signal (number : Nat)
  /- It does not end. -/
  | never
deriving DecidableEq, Repr

/- What a process writes, and how it ends. -/
structure ProcessReply where
  stdout : String := ""
  stderr : String := ""
  ending : ProcessEnd := .exit 0
deriving Repr

/- A program that does not know its arguments. -/
def ProcessReply.unexpected : ProcessReply where
  stderr := "unexpected call"
  ending := .exit 64

/- The names of the signals from the first on. -/
def signalNames : List String :=
  ["SIGHUP", "SIGINT", "SIGQUIT", "SIGILL", "SIGTRAP",
    "SIGABRT", "SIGBUS", "SIGFPE", "SIGKILL", "SIGUSR1",
    "SIGSEGV", "SIGUSR2", "SIGPIPE", "SIGALRM", "SIGTERM",
    "SIGSTKFLT", "SIGCHLD", "SIGCONT", "SIGSTOP", "SIGTSTP",
    "SIGTTIN", "SIGTTOU", "SIGURG", "SIGXCPU", "SIGXFSZ",
    "SIGVTALRM", "SIGPROF", "SIGWINCH", "SIGIO", "SIGPWR",
    "SIGSYS"]

/- The name of a signal, if it has one. -/
def signalName? : Nat → Option String
  | 0 => none
  | n + 1 => signalNames[n]?

/- A signal by its number, and its name if it has one. -/
def signalText
    (number : Nat) : String :=
  match signalName? number with
  | some name => s!"signal: {number} ({name})"
  | none => s!"signal: {number}"

/- How a process exits; eight bits of its code are seen. -/
def ProcessEnd.ofExitCode
    (code : Int) : ProcessEnd :=
  .exit (code % 256).toNat

/-
  How a process ends after a signal.  Some signals only stop
  a process, and some do nothing to it, so that it exits.
-/
def ProcessEnd.ofSignal
    (number : Nat)
    (code : Int) : ProcessEnd :=
  if number ∈ [19, 20, 21, 22] then .never
  else if number ∈ [0, 17, 18, 23, 28] ∨ 64 < number then
    .ofExitCode code
  else .signal number

/- The most bytes that an argument of a program may have. -/
def longestArgument : Nat := 131071

/- Why a program does not start. -/
inductive StartError where
  | file (e : FileError)
  /- A text for the program holds the character zero. -/
  | zeroByte
  | argumentTooLong
deriving DecidableEq, Repr

/- The text of an error, as the operating system gives it. -/
def StartError.text : StartError → String
  | .file e => e.text
  | .zeroByte => "nul byte found in provided data"
  | .argumentTooLong => "Argument list too long (os error 7)"

/- The files around the engine, and what the engine says. -/
structure Workspace where
  files : FileTable := {}
  /- Replies by the arguments, with blanks between them. -/
  replies : List (String × ProcessReply) := []

/- Is the character white space? -/
def isWhiteSpace
    (c : Char) : Bool :=
  let n := c.toNat
  (0x9 ≤ n && n ≤ 0xD) || n = 0x20 || n = 0x85 || n = 0xA0 ||
    n = 0x1680 || (0x2000 ≤ n && n ≤ 0x200A) || n = 0x2028 ||
    n = 0x2029 || n = 0x202F || n = 0x205F || n = 0x3000

/- A text without white space around it. -/
def trimmed
    (s : String) : String :=
  String.ofList
    (((s.toList.dropWhile isWhiteSpace).reverse.dropWhile
      isWhiteSpace).reverse)

namespace Workspace

/-
  The program file behind a name.  A name without a slash is
  looked up on the search path.
-/
def programPath
    (program : String) : String :=
  if program.toList.contains '/' then program
  else PathText.join searchPath program

/- Start a program with arguments. -/
def start
    (w : Workspace)
    (program : String)
    (arguments : List String) : Except StartError Unit :=
  if (program :: arguments).any
      (fun a => a.toList.contains '\x00') then
    .error .zeroByte
  else
    match w.files.checkRunnable (programPath program) with
    | .error e => .error (.file e)
    | .ok () =>
        if arguments.any
            (fun a => longestArgument < a.utf8ByteSize) then
          .error .argumentTooLong
        else .ok ()

/- The reply to some arguments. -/
def reply
    (w : Workspace)
    (arguments : List String) : ProcessReply :=
  (w.replies.lookup (" ".intercalate arguments)).getD
    .unexpected

/-
  Call a program and read its output as JSON.  No program is
  so fast that it ends within no time at all.
-/
def call
    (w : Workspace)
    (timeoutSeconds : Nat)
    (program : String)
    (arguments : List String) : Except EngineError Json :=
  let command := " ".intercalate (program :: arguments)
  match w.start program arguments with
  | .error e => .error (.spawnFailed program e.text)
  | .ok () =>
      let r := w.reply arguments
      let failed (status : String) :=
        EngineError.nonZeroExit command status (trimmed r.stderr)
      if timeoutSeconds = 0 then .error (.timeout command 0)
      else
        match r.ending with
        | .never => .error (.timeout command timeoutSeconds)
        | .signal n => .error (failed (signalText n))
        | .exit 0 =>
            match Json.parse? r.stdout with
            | some v => .ok v
            | none => .error .json
        | .exit code => .error (failed s!"exit status: {code}")

end Workspace

------------------------------------------------------------
-- Sessions
------------------------------------------------------------

/- Calls of Flow about one source file. -/
structure FlowSession where
  settings : FlowSettings
  source : String
  /- The program, once it has been found. -/
  found : Option String := none

namespace FlowSession

/- The program to call. -/
def binary
    (s : FlowSession)
    (w : Workspace) : Except EngineError String :=
  match s.found with
  | some path => .ok path
  | none => locateFlow w.files s.settings.binary s.source

/- Keep the program for later calls, if there is one. -/
def remember
    (s : FlowSession)
    (w : Workspace) : FlowSession :=
  match s.binary w with
  | .ok path => { s with found := some path }
  | .error _ => s

/- Call Flow. -/
def call
    (s : FlowSession)
    (w : Workspace)
    (arguments : List String) : Except EngineError Json := do
  let program ← s.binary w
  w.call s.settings.timeoutSeconds program arguments

/- Flow as an engine. -/
def engine
    (s : FlowSession)
    (w : Workspace) : Engine where
  name := flowName
  answer
    | .available =>
        (s.call w FlowSettings.versionArguments).map
          (fun _ => ())
    | .dump => do
        decodeDump
          (← s.call w (s.settings.dumpArguments s.source))
    | .point line column => do
        decodePoint
          (← s.call w
            (s.settings.pointArguments s.source line column))

end FlowSession

end TypeGraft
