import FlowRegions.Shell.Program

/-!
# The command line

The program on the system that it is started on.  No viewer and no layout program is started from
here: both count as missing.
-/

namespace FlowRegions

/-- The fault that an error of the system stands for. -/
def FileFault.ofError : IO.Error → FileFault
  | .noFileOrDirectory .. => .noEntry
  | .noSuchThing .. => .noEntry
  | .alreadyExists .. => .alreadyExists
  | .inappropriateType _ code _ => if code.toNat = 21 then .isDirectory else .notDirectory
  | .resourceExhausted .. => .nameTooLong
  | .permissionDenied _ code details => ⟨code.toNat, details⟩
  | e => ⟨5, e.toString⟩

namespace Shell

def onFile {α : Type} (p : Path) (operation : String → IO α) : IO (Except FileError α) := do
  if p.hasNul then return .error .nul
  try return .ok (← operation p.text)
  catch e => return .error (.failed (.ofError e) p.text)

instance : Host IO where
  workingDirectory := return .ofString (← IO.currentDir).toString
  home? user := do
    if user.isEmpty then return (← IO.getEnv "HOME").map .ofString else return none
  probe p := onFile p fun name => do
    let here ← IO.currentDir
    discard (here / name).metadata
  read p := onFile p fun name => IO.FS.readBinFile name
  write p content := onFile p fun name => IO.FS.writeBinFile name content
  makeDirectories p := onFile p fun name => IO.FS.createDirAll name
  emit
    | .out, text => do
      let stream ← IO.getStdout
      stream.putStr text
      stream.flush
    | .err, text => do
      let stream ← IO.getStderr
      stream.putStr text
      stream.flush
  view _ _ := return .error (.missing "dot")
  layOut _ := return .error (.missing "dot")

end Shell

end FlowRegions

def main (arguments : List String) : IO UInt32 := do
  return (← FlowRegions.Shell.runProgram arguments).toUInt32
