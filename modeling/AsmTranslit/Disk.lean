import AsmTranslit.FileAccess

/-!
# Disks

A disk as a value, which is one way to carry out the operations on files: one whose runs can be
evaluated.  A disk has some files, a working folder, and the folders around it.  A path is followed name
by name, through folders only, and where it ends decides what can be done there: a file is read, and
anything but a folder can be replaced.  A disk may be limited, so that writing stops in the middle.
-/

namespace AsmTranslit

/-- A place on a disk: the names on the way from the root, the last one first. -/
abbrev Place := List String

/-- A disk.  Its folders are the working folder, the other ones, and all that these are in. -/
structure Disk where
  workingFolder : Place
  otherFolders : List Place
  files : List (Place × ByteArray)

inductive PathEnd
  /-- In a folder, by dots or as the root. -/
  | folder (place : Place)
  /-- At a name, which may be that of nothing, with slashes behind it or without. -/
  | name (place : Place) (slashed : Bool)
  deriving DecidableEq, Repr

def temporaryName (number : Nat) : String :=
  ".tmp" ++ String.ofList ((Nat.toDigits 10 (1000000 + number)).drop 1)

namespace Disk

def nameLimit : Nat := 255

def pathLimit : Nat := 4095

def isFolder (disk : Disk) (place : Place) : Bool :=
  (disk.workingFolder :: disk.otherFolders).any place.isSuffixOf

def file? (disk : Disk) (place : Place) : Option ByteArray :=
  disk.files.lookup place

def remove (disk : Disk) (place : Place) : Disk :=
  { disk with files := disk.files.filter fun entry => entry.1 != place }

def put (disk : Disk) (place : Place) (contents : ByteArray) : Disk :=
  { disk with files := (place, contents) :: (disk.remove place).files }

def used (disk : Disk) : Nat :=
  disk.files.foldr (fun entry size => entry.2.size + size) 0

def enter (disk : Disk) (folder : Place) (name : String) : Except FileFault Place :=
  if name = "" ∨ name = "." then .ok folder
  else if name = ".." then .ok folder.tail
  else if nameLimit < name.utf8ByteSize then .error .nameTooLong
  else if disk.isFolder (name :: folder) then .ok (name :: folder)
  else if (disk.file? (name :: folder)).isSome then .error .notFolder
  else .error .missing

def start (disk : Disk) (path : String) : Place :=
  if isAbsolute path then [] else disk.workingFolder

/-- A path must not hold a NUL character, for which the fault is given, and must not be too long. -/
def check (nul : FileFault) (path : String) : Except FileFault Unit :=
  if path.toList.contains '\x00' then .error nul
  else if pathLimit < path.utf8ByteSize then .error .nameTooLong
  else .ok ()

def follow (disk : Disk) (path : String) : Except FileFault PathEnd :=
  if path = "" then .error .missing
  else
    match (pathNames path).reverse.dropWhile (· == "") with
    | [] => .ok (.folder (disk.start path))
    | last :: before => do
      let folder ← before.reverse.foldlM disk.enter (disk.start path)
      if last = "." then return .folder folder
      else if last = ".." then return .folder folder.tail
      else if nameLimit < last.utf8ByteSize then .error .nameTooLong
      else return .name (last :: folder) ((pathNames path).getLast? == some "")

def contents (disk : Disk) (path : String) : Except FileFault ByteArray := do
  check .nulInName path
  match ← disk.follow path with
  | .folder _ => .error .isFolder
  | .name place slashed =>
    if disk.isFolder place then .error .isFolder
    else
      match disk.file? place with
      | none => .error .missing
      | some contents => if slashed then .error .notFolder else .ok contents

def vacancy (disk : Disk) (path : String) : Except FileFault Place := do
  check .nulInName (path ++ "/" ++ temporaryName 0)
  let folder ← (pathNames path).foldlM disk.enter (disk.start path)
  let places := (List.range (disk.files.length + 1)).map fun number => temporaryName number :: folder
  match places.find? fun place => !disk.isFolder place && (disk.file? place).isNone with
  | none => .error (.other "too many temporary files exist")
  | some place => .ok place

def target (disk : Disk) (path : String) : Except FileFault Place := do
  check .invalidName path
  match ← disk.follow path with
  | .folder _ => .error .busy
  | .name place slashed =>
    if slashed then .error .notFolder
    else if disk.isFolder place then .error .isFolder
    else .ok place

/-- What has been written to the file at a place. -/
def written (disk : Disk) (place : Place) : ByteArray :=
  (disk.file? place).getD ByteArray.empty

/-- The disk on which as many of the bytes as fit are behind those of a file. -/
def append (disk : Disk) (room : Option Nat) (place : Place) (bytes : ByteArray) :
    Except FileFault Unit × Disk :=
  match room with
  | none => (.ok (), disk.put place (disk.written place ++ bytes))
  | some limit =>
    let fitting := bytes.extract 0 (limit - disk.used)
    (if bytes.size ≤ limit - disk.used then .ok () else .error .full,
      disk.put place (disk.written place ++ fitting))

/-- The operations on a disk whose files hold no more bytes than there is room for. -/
def accessWithin (room : Option Nat) : FileAccess (StateM Disk) where
  Temporary := Place
  read path := return (← get).contents path
  newIn path := do
    match (← get).vacancy path with
    | .error fault => return .error fault
    | .ok place =>
      modify fun disk => disk.put place ByteArray.empty
      return .ok place
  writeAll place bytes := modifyGet fun disk => disk.append room place bytes
  flush _ := return .ok ()
  persist place path := do
    match (← get).target path with
    | .error fault => return .error fault
    | .ok goal =>
      modify fun disk => (disk.remove place).put goal (disk.written place)
      return .ok ()
  drop place := modify fun disk => disk.remove place

abbrev access : FileAccess (StateM Disk) :=
  accessWithin none

end Disk

end AsmTranslit
