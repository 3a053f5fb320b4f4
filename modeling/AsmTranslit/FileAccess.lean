import AsmTranslit.CommaList

/-!
# File access

The operations on files that a conversion is made of, in any monad, and what can be wrong with them.
A file is never written in place: its new contents go to a temporary file in the same folder, which
then takes its place.  What this does to the files can be stated for every way to carry the operations
out, and the program itself carries them out on a real disk.
-/

namespace AsmTranslit

inductive FileFault
  /-- The file, or a folder on the way to it, does not exist. -/
  | missing
  /-- The path ends in a folder that cannot be replaced. -/
  | busy
  /-- The path goes on behind a file. -/
  | notFolder
  | isFolder
  /-- No room is left on the disk. -/
  | full
  /-- A name or the whole path is too long. -/
  | nameTooLong
  /-- The path of the file, or of the folder to write it in, holds a NUL character. -/
  | nulInName
  /-- Only the name of the file to replace holds a NUL character. -/
  | invalidName
  | notText
  | other (text : String)
  deriving DecidableEq, Repr

def FileFault.message : FileFault → String
  | missing => "No such file or directory (os error 2)"
  | busy => "Device or resource busy (os error 16)"
  | notFolder => "Not a directory (os error 20)"
  | isFolder => "Is a directory (os error 21)"
  | full => "No space left on device (os error 28)"
  | nameTooLong => "File name too long (os error 36)"
  | invalidName => "Invalid argument (os error 22)"
  | nulInName => "file name contained an unexpected NUL byte"
  | notText => "stream did not contain valid UTF-8"
  | other text => text

/-- The operations on files.  Each may fail, and may have changed something by then. -/
structure FileAccess (m : Type → Type) where
  /-- A temporary file, which is open for writing. -/
  Temporary : Type
  /-- Open a file and read it to its end. -/
  read : String → m (Except FileFault ByteArray)
  /-- Make an empty temporary file in a folder, under a name that is not in use. -/
  newIn : String → m (Except FileFault Temporary)
  writeAll : Temporary → ByteArray → m (Except FileFault Unit)
  flush : Temporary → m (Except FileFault Unit)
  /-- Move a temporary file to where a path leads. -/
  persist : Temporary → String → m (Except FileFault Unit)
  /-- Close a temporary file that has not been moved, and delete it. -/
  drop : Temporary → m Unit

def pathNames (path : String) : List String :=
  (pieces (fun _ _ => ()) (fun _ c => c == '/') () path.toList).map String.ofList

def isAbsolute (path : String) : Bool :=
  path.toList.head? == some '/'

/-- The names up to the last one that is a name and not a dot or a second slash. -/
def dropDots (names : List String) : List String :=
  (names.reverse.dropWhile fun name => name == "" || name == ".").reverse

/-- The path of the folder that a path is in: without its last name and the slashes and dots around
it.  A path of one name, or of none, is taken to be in the working folder. -/
def enclosingPath (path : String) : String :=
  match dropDots (pathNames path) with
  | [] => "."
  | names =>
    match dropDots names.dropLast with
    | [] => if isAbsolute path then "/" else "."
    | before => "/".intercalate before

namespace FileAccess

variable {m : Type → Type} [Monad m]

def settle (access : FileAccess m) (file : access.Temporary) (path : String) (contents : ByteArray) :
    m (Except FileFault Unit) := do
  match ← access.writeAll file contents with
  | .error fault => return .error fault
  | .ok () =>
    match ← access.flush file with
    | .error fault => return .error fault
    | .ok () => access.persist file path

/-- Replace the contents of a file, by way of a temporary file beside it.  A temporary file that does
not get there is given up. -/
def replace (access : FileAccess m) (path : String) (contents : ByteArray) :
    m (Except FileFault Unit) := do
  match ← access.newIn (enclosingPath path) with
  | .error fault => return .error fault
  | .ok file =>
    match ← access.settle file path contents with
    | .error fault =>
      access.drop file
      return .error fault
    | .ok () => return .ok ()

end FileAccess

end AsmTranslit
