import Lr35902.Program

/-!
# The entry point

Reads the files that the command line names, runs the machine and prints what the outcome says.
-/

namespace Lr35902

namespace Program

/-- What an error of the system says about the file that was to be read.  When a file cannot be
opened, the number that comes with the error is a negative one, taken modulo 2 to the 32. -/
def fileError : IO.Error → FileError
  | .noFileOrDirectory .. => .missing
  | .permissionDenied .. => .accessDenied
  | .inappropriateType _ code _ => if code = 21 then .isDirectory else .notDirectory
  | .invalidArgument _ code text =>
    if code = 0 - 36 then .nameTooLong
    else if code = 0 - 40 then .tooManyLinks
    else .other text
  | e => .other (toString e)

/-- Reads the file at `path`. -/
def readImage (path : String) : IO ImageFile := do
  try
    let contents ← IO.FS.readBinFile path
    return { path, contents := .ok contents.toList }
  catch e =>
    return { path, contents := .error (fileError e) }

/-- Runs the session to its end. -/
partial def runToEnd (s : Session) : IO (Except RunError RunSummary) := do
  let result := match s.limits.maxCycles with
    | some maxCycles => s.machine.runWithin maxCycles s.limits.maxFrames
    | none => s.machine.runFor s.limits 100000
  match Session.finish? result with
  | some outcome => return outcome
  | none => runToEnd { s with machine := result.machine }

/-- Carries out a job. -/
def perform : Job → IO Outcome
  | .finish outcome => return outcome
  | .run o => do
    let cartridge ← o.cartridge.mapM readImage
    let boot ← o.boot.mapM readImage
    match (o.request cartridge boot).start with
    | .ok session => return .ofRun o.dumpRegs (← runToEnd session)
    | .error e => return .ofRun o.dumpRegs (.error e)

end Program

end Lr35902

/-- Runs the program with the given arguments. -/
def main (args : List String) : IO UInt32 := do
  let outcome ← Lr35902.Program.perform (Lr35902.Program.job args)
  IO.print outcome.stdout
  IO.eprint outcome.stderr
  return outcome.exitCode
