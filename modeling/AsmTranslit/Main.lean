import AsmTranslit.CommandLine
import AsmTranslit.Disk

/-!
# The program

The command line on a real disk.  Each operation on files is one call of the system; what is done with
them is said where they are put together.
-/

namespace AsmTranslit

def systemText (code : UInt32) (details : String) : String :=
  details ++ " (os error " ++ toString code ++ ")"

def faultOfError : IO.Error → FileFault
  | .noFileOrDirectory _ _ _ => .missing
  | .resourceBusy _ _ => .busy
  | .inappropriateType _ code details
  | .permissionDenied _ code details
  | .resourceExhausted _ code details
  | .invalidArgument _ code details => .other (systemText code details)
  | error => .other (toString error)

def attempt {α : Type} (action : IO α) : IO (Except FileFault α) := do
  try return .ok (← action)
  catch error => return .error (faultOfError error)

structure OpenFile where
  path : String
  handle : IO.FS.Handle

/-- Make a file in a folder.  Names are drawn until one is not in use, at most the given number of
times. -/
def makeFile (folder : String) : Nat → IO (Except FileFault OpenFile)
  | 0 => return .error (.other "too many temporary files exist")
  | draws + 1 => do
    let path := folder ++ "/" ++ temporaryName (← IO.rand 0 999999)
    try return .ok ⟨path, ← IO.FS.Handle.mk path .writeNew⟩
    catch
      | .alreadyExists _ _ _ => makeFile folder draws
      | error => return .error (faultOfError error)

def diskAccess : FileAccess IO where
  Temporary := OpenFile
  read path := attempt (IO.FS.readBinFile path)
  newIn folder := makeFile folder 65536
  writeAll file bytes := attempt (file.handle.write bytes)
  flush file := attempt file.handle.flush
  persist file path := attempt (IO.FS.rename file.path path)
  drop file := do
    let _ ← attempt (IO.FS.removeFile file.path)

end AsmTranslit

open AsmTranslit

def main (arguments : List String) : IO UInt32 := do
  let outcome ← (Request.ofArguments arguments).perform diskAccess
  IO.print outcome.stdout
  IO.eprint outcome.stderr
  return UInt32.ofNat outcome.status
