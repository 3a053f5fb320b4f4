import AsmTranslit.ArgumentParser
import AsmTranslit.SourceFile

/-!
# The command line

What the program answers to a request: an exit status, and the texts for the two standard streams.
-/

namespace AsmTranslit

/-- What the program leaves behind, files apart. -/
structure Outcome where
  status : Nat := 0
  stdout : String := ""
  stderr : String := ""
  deriving DecidableEq, Repr

def Outcome.ofResult : Except FileFailure GoSource → Outcome
  | .ok source => { stdout := (source.listing.map Listing.text).getD "" }
  | .error failure => { status := 1, stderr := failure.message ++ "\n" }

def Request.perform {m : Type → Type} [Monad m] (access : FileAccess m) : Request → m Outcome
  | .help program => return { stdout := helpText program }
  | .version => return { stdout := ownName ++ " 0.1.0\n" }
  | .misuse cause => return { status := 2, stderr := cause.message }
  | .convert options input output => do
    return .ofResult (← GoSource.convertFile access options input output)

end AsmTranslit
