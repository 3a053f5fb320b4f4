import AsmTranslit.FileAccess
import AsmTranslit.GoSource

/-!
# Source files

From the file that holds a listing to the file that holds Go assembler source.  The output file is
replaced only after everything else has succeeded.
-/

namespace AsmTranslit

inductive FileFailure
  | reading (file : String) (fault : FileFault)
  | listing (failure : Failure)
  | writing (file : String) (fault : FileFault)
  deriving DecidableEq, Repr

def FileFailure.message : FileFailure → String
  | reading file fault => "failed to read file " ++ file ++ ": " ++ fault.message
  | listing failure => failure.message
  | writing file fault => "failed to write file " ++ file ++ ": " ++ fault.message

def dropReturn (cs : List Char) : List Char :=
  match cs.reverse with
  | '\r' :: rest => rest.reverse
  | _ => cs

/-- The lines of the pieces between line feeds.  The last piece has none behind it: it keeps its
carriage return, and is no line if it is empty. -/
def linesOfPieces : List (List Char) → List (List Char)
  | [] => []
  | [last] => if last.isEmpty then [] else [last]
  | piece :: rest => dropReturn piece :: linesOfPieces rest

def splitLines (text : String) : List String :=
  (linesOfPieces (pieces (fun _ _ => ()) (fun _ c => c == '\n') () text.toList)).map String.ofList

def fileLines? (contents : ByteArray) : Option (List String) :=
  (String.fromUTF8? contents).map splitLines

def GoSource.ofContents (options : Options) (file : String) (contents : ByteArray) :
    Except FileFailure GoSource :=
  match fileLines? contents with
  | none => .error (.reading file .notText)
  | some lines => (GoSource.ofLines options lines).mapError .listing

def GoSource.convertFile {m : Type → Type} [Monad m] (access : FileAccess m) (options : Options)
    (input output : String) : m (Except FileFailure GoSource) := do
  match ← access.read input with
  | .error fault => return .error (.reading input fault)
  | .ok contents =>
    match GoSource.ofContents options input contents with
    | .error failure => return .error failure
    | .ok source =>
      match ← access.replace output source.text.toUTF8 with
      | .error fault => return .error (.writing output fault)
      | .ok () => return .ok source

end AsmTranslit
