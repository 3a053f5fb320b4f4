import AsmTranslit.ControlSequence
import AsmTranslit.GoSource

/-!
# The argument parser

What the arguments of the program ask for.  The parser follows the conventions of the library that
the command line is declared with: which argument decides, and how it is answered if there is no use
for it.
-/

namespace AsmTranslit

/-- The name that the program goes by when it is asked for help. -/
def calledName : String := "c2goasm"

def ownName : String := "translator"

def usageLine (program : String) : String :=
  "Usage: " ++ program ++ " [OPTIONS] [INPUT] [OUTPUT]\n"

def helpText (program : String) : String :=
  "Translate compiler-generated Intel-syntax assembly into Go assembler source\n\n" ++
    usageLine program ++
    "\nArguments:\n" ++
    "  [INPUT]   File containing the compiler's assembly output\n" ++
    "  [OUTPUT]  File to which the Go assembler source is written\n" ++
    "\nOptions:\n" ++
    "      --single-table  Associate each routine with only the first data table it refers to\n" ++
    "      --list          Print a summary of each translated routine\n" ++
    "  -h, --help          Print help\n" ++
    "  -V, --version       Print version\n"

inductive Switch
  | singleTable
  | list
  deriving DecidableEq, Repr

def Switch.name : Switch → String
  | singleTable => "--single-table"
  | list => "--list"

def switchNames : List String := [Switch.singleTable.name, Switch.list.name]

inductive Argument
  | help
  | version
  | switch (switch : Switch)
  /-- A long option with an equals sign and a value, which none of them takes. -/
  | valued (option value : String)
  /-- Behind it, everything is a file. -/
  | separator
  | unknown (option : String)
  | file (path : String)
  deriving DecidableEq, Repr

def longOptions : List String :=
  switchNames ++ ["--help", "--version"]

/-- What an argument is.  Short options may be run together, and the first of them decides. -/
def Argument.ofText (text : String) : Argument :=
  let option := String.ofList (text.toList.takeWhile (· != '='))
  let value := text.toList.dropWhile (· != '=')
  if text = "--" then .separator
  else if longOptions.contains option && !value.isEmpty then
    .valued option (String.ofList value.tail)
  else if text = Switch.singleTable.name then .switch .singleTable
  else if text = Switch.list.name then .switch .list
  else if text = "--help" then .help
  else if text = "--version" then .version
  else
    match text.toList with
    | '-' :: 'h' :: _ => .help
    | '-' :: 'V' :: _ => .version
    | '-' :: _ :: _ => .unknown text
    | _ => .file text

structure Arguments where
  switches : List Switch := []
  files : List String := []
  deriving DecidableEq, Repr

def Arguments.addSwitch (arguments : Arguments) (switch : Switch) : Arguments :=
  { arguments with switches := arguments.switches ++ [switch] }

def Arguments.addFile (arguments : Arguments) (file : String) : Arguments :=
  { arguments with files := arguments.files ++ [file] }

/-- Whether one of the arguments is settled: a switch is at once, a file with the next switch or
file. -/
def Arguments.anySettled (arguments : Arguments) : Bool :=
  !arguments.switches.isEmpty || 1 < arguments.files.length

inductive Misuse
  | unexpected (argument : String)
  | repeated (switch : Switch)
  | unneededValue (option value : String) (earlier : Arguments)
  deriving DecidableEq, Repr

/-- What is wrong with the arguments.  Of what the user wrote, only the visible text is repeated. -/
def Misuse.complaint : Misuse → String
  | unexpected argument => "unexpected argument '" ++ visibleText argument ++ "' found"
  | repeated switch => "the argument '" ++ switch.name ++ "' cannot be used multiple times"
  | unneededValue option value _ =>
    "unexpected value '" ++ visibleText value ++ "' for '" ++ option ++
      "' found; no more were expected"

def combinedArguments : String :=
  "<" ++ "|".intercalate ("INPUT" :: "OUTPUT" :: switchNames) ++ ">"

/-- The usage line behind a complaint.  For an option with a value it shows that option, and the files
that may follow; once an argument is settled it shows all that can be combined, and the option only if
it is not among them. -/
def Misuse.usage : Misuse → String
  | unneededValue option _ earlier =>
    let shown :=
      if !earlier.anySettled then [option, "[INPUT]", "[OUTPUT]"]
      else if switchNames.contains option then [combinedArguments]
      else [option, combinedArguments]
    "Usage: " ++ " ".intercalate (calledName :: shown) ++ "\n"
  | _ => usageLine calledName

def Misuse.message (misuse : Misuse) : String :=
  "error: " ++ misuse.complaint ++ "\n\n" ++ misuse.usage ++
    "\nFor more information, try '--help'.\n"

inductive Request
  /-- The help text, under the given program name. -/
  | help (program : String)
  | version
  | misuse (cause : Misuse)
  | convert (options : Options) (input output : String)
  deriving DecidableEq, Repr

namespace Request

/-- The request of arguments that have all been read.  If a file is missing, help is given. -/
def ofComplete (arguments : Arguments) : Request :=
  match arguments.files with
  | [input, output] =>
    .convert ⟨if arguments.switches.contains .singleTable then .firstMatch else .allReferenced,
      arguments.switches.contains .list⟩ input output
  | _ => .help ownName

def fileLimit : Nat := 2

def ofFiles (arguments : Arguments) : List String → Request
  | [] => ofComplete arguments
  | file :: rest =>
    if arguments.files.length < fileLimit then ofFiles (arguments.addFile file) rest
    else .misuse (.unexpected file)

/-- The request of the remaining arguments.  The first one that asks for help or the version, or that
there is no use for, decides. -/
def ofRemaining (arguments : Arguments) : List String → Request
  | [] => ofComplete arguments
  | argument :: rest =>
    match Argument.ofText argument with
    | .help => .help calledName
    | .version => .version
    | .switch switch =>
      if arguments.switches.contains switch then .misuse (.repeated switch)
      else ofRemaining (arguments.addSwitch switch) rest
    | .valued option value => .misuse (.unneededValue option value arguments)
    | .separator => ofFiles arguments rest
    | .unknown option => .misuse (.unexpected option)
    | .file path =>
      if arguments.files.length < fileLimit then ofRemaining (arguments.addFile path) rest
      else .misuse (.unexpected path)

def ofArguments (arguments : List String) : Request :=
  ofRemaining {} arguments

end Request

end AsmTranslit
