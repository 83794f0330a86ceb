import Lr35902.CommandLine

/-!
# The program

`Program.job` finds out from the arguments what is to be done: print a text and end, or run the
machine.  Either way the program leaves an `Outcome` behind.  It exits with 0 when it has done what
was asked for, with 1 if a run could not be carried out, and with 2 if the arguments make no sense.
-/

namespace Lr35902

/-- How the program ends, and what it has printed by then. -/
structure Outcome where
  exitCode : UInt32 := 0
  stdout : String := ""
  stderr : String := ""
deriving DecidableEq

namespace Outcome

/-- The outcome of printing a text. -/
def ofText (text : String) : Outcome := { stdout := text ++ "\n" }

/-- The outcome of failing. -/
def ofFailure (exitCode : UInt32) (message : String) : Outcome where
  exitCode := exitCode
  stderr := s!"error: {message}\n"

/-- The outcome of a run, with or without the registers. -/
def ofRun (dumpRegs : Bool) : Except RunError RunSummary → Outcome
  | .ok summary => { stdout := summary.report dumpRegs }
  | .error e => ofFailure 1 e.message

end Outcome

namespace Program

/-- What is to be done. -/
inductive Job where
  /-- Run the machine. -/
  | run (options : CommandLine.Options)
  /-- Nothing is left to do but to print. -/
  | finish (outcome : Outcome)
deriving DecidableEq

/-- What the arguments ask for. -/
def job (args : List String) : Job :=
  match CommandLine.parse args with
  | .ok (.run options) => .run options
  | .ok .help => .finish (.ofText CommandLine.helpText)
  | .ok .version => .finish (.ofText CommandLine.versionText)
  | .error e => .finish (.ofFailure 2 e.message)

/-- The file at `path`, as far as it can be read. -/
def imageFile (fs : FileSystem) (path : String) : ImageFile where
  path := path
  contents := fs.read path

/-- The run that the options ask for, with the files that they name. -/
def request (fs : FileSystem) (o : CommandLine.Options) : RunRequest :=
  o.request (o.cartridge.map (imageFile fs)) (o.boot.map (imageFile fs))

end Program

end Lr35902
