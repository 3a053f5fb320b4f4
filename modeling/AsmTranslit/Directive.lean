import AsmTranslit.DataTable

/-!
# Directives

The assembler directives of a listing, as far as they bear on code and data: switches of section,
declarations of symbols, alignments and data.  Directives that bear on neither are bookkeeping, and
a name that is not known is kept as it is.
-/

namespace AsmTranslit

-- Powers are those of the core library, whichever other ones are in scope.
attribute [local instance (high)] instPowNat

inductive SectionKind
  | text
  | readOnlyData
  | writableData
  /-- Debug information, notes and the like. -/
  | other
  deriving DecidableEq, Repr

inductive ObjectFormat
  | elf
  | machO
  deriving DecidableEq, Repr

/-- A requested alignment.  The number of `.align` counts bytes or is an exponent of two, by the
object format. -/
inductive Alignment
  | bytes (count : Nat)
  | byFormat (number : Nat)
  deriving DecidableEq, Repr

inductive AlignmentFault
  | tooLarge (exponent : Nat)
  | noPowerOfTwo (bytes : Nat)
  deriving DecidableEq, Repr

def AlignmentFault.message : AlignmentFault → String
  | tooLarge exponent => "alignment 2^" ++ toString exponent ++ " is too large"
  | noPowerOfTwo bytes => "alignment " ++ toString bytes ++ " is not a power of two"

/-- The alignment with the given exponent of two, which is below 32. -/
def alignmentOfExponent (exponent : Nat) : Except AlignmentFault Nat :=
  if exponent < 32 then .ok (2 ^ exponent) else .error (.tooLarge exponent)

/-- The alignment of the given number of bytes, which is a power of two. -/
def alignmentOfBytes (bytes : Nat) : Except AlignmentFault Nat :=
  if bytes = 2 ^ bytes.log2 then .ok bytes else .error (.noPowerOfTwo bytes)

def Alignment.resolve (format : ObjectFormat) : Alignment → Except AlignmentFault Nat
  | bytes count => .ok count
  | byFormat number =>
    match format with
    | .machO => alignmentOfExponent number
    | .elf => alignmentOfBytes number

inductive Directive
  /-- What follows belongs to a section of this kind. -/
  | switch (kind : SectionKind)
  | global (symbol : String)
  | symbolType (symbol : String) (isFunction : Bool)
  | symbolSize (symbol : String)
  | align (alignment : Alignment)
  /-- A data directive by its name, which includes the dot. -/
  | data (name arguments : String)
  | bookkeeping (name : String)
  | other (name : String)
  deriving DecidableEq, Repr

def startsWithAny (starts : List String) (cs : List Char) : Bool :=
  starts.any fun start => start.toList.isPrefixOf cs

def SectionKind.ofName (name : List Char) : SectionKind :=
  if name = ".text".toList ||
      startsWithAny [".text.", "__TEXT,__text", "__TEXT,__StaticInit"] name then text
  else if startsWithAny [".rodata", ".rdata", "__TEXT,"] name then readOnlyData
  else if startsWithAny [".data", ".bss", ".tdata", ".tbss", "__DATA,", "__DATA_CONST,"] name then
    writableData
  else other

def stripQuotes (cs : List Char) : List Char :=
  ((cs.dropWhile (· == '"')).reverse.dropWhile (· == '"')).reverse

/-- The section that the arguments of `.section` name: the first argument, or the first two with
their comma if the first starts like a segment. -/
def sectionName (arguments : List Char) : List Char :=
  match (commaPieces arguments).map fun piece => stripQuotes (trim piece) with
  | [] => []
  | [first] => first
  | first :: second :: _ => if "__".toList.isPrefixOf first then first ++ ',' :: second else first

def argumentAt (place : Nat) (arguments : List Char) : List Char :=
  trim ((commaPieces arguments)[place]?.getD [])

/-- The number below two to the power of 64 that a text of digits denotes; a plus sign may stand in
front. -/
def readWord? (cs : List Char) : Option Nat :=
  let digits := match cs with
    | '+' :: digits => digits
    | digits => digits
  (readNumeral? 10 digits).filter (· < UInt64.size)

inductive LineFault
  | textAfterLabel (text : String)
  | badAlignment (arguments name : String)
  | alignment (fault : AlignmentFault)
  deriving DecidableEq, Repr

def LineFault.message : LineFault → String
  | textAfterLabel text => "unexpected text '" ++ text ++ "' after label"
  | badAlignment arguments name =>
    "bad alignment '" ++ arguments ++ "' in " ++ name ++ " directive"
  | alignment fault => fault.message

def readAlignment (name : String) (arguments : List Char) : Except LineFault Alignment :=
  match readWord? (argumentAt 0 arguments) with
  | none => .error (.badAlignment (String.ofList arguments) name)
  | some n =>
    match name with
    | ".p2align" => (alignmentOfExponent n).mapError .alignment |>.map .bytes
    | ".balign" => (alignmentOfBytes n).mapError .alignment |>.map .bytes
    | _ => .ok (.byFormat n)

/-- The bookkeeping directives that are not about call frames. -/
def bookkeepingNames : List String :=
  [".file", ".loc", ".ident", ".intel_syntax", ".att_syntax", ".addrsig", ".addrsig_sym", ".hidden",
    ".local", ".weak", ".protected", ".internal", ".private_extern", ".weak_definition",
    ".build_version", ".macosx_version_min", ".subsections_via_symbols", ".data_region",
    ".end_data_region", ".previous"]

def namesFunction (argument : List Char) : Bool :=
  argument.dropWhile (fun c => c == '@' || c == '%') == "function".toList

def readDirective (name : String) (arguments : List Char) : Except LineFault Directive :=
  match name with
  | ".text" => .ok (.switch .text)
  | ".data" => .ok (.switch .writableData)
  | ".bss" => .ok (.switch .writableData)
  | ".rodata" => .ok (.switch .readOnlyData)
  | ".const" => .ok (.switch .readOnlyData)
  | ".literal4" => .ok (.switch .readOnlyData)
  | ".literal8" => .ok (.switch .readOnlyData)
  | ".literal16" => .ok (.switch .readOnlyData)
  | ".cstring" => .ok (.switch .readOnlyData)
  | ".section" => .ok (.switch (.ofName (sectionName arguments)))
  | ".globl" => .ok (.global (String.ofList arguments))
  | ".global" => .ok (.global (String.ofList arguments))
  | ".type" =>
    .ok (.symbolType (String.ofList (argumentAt 0 arguments)) (namesFunction (argumentAt 1 arguments)))
  | ".size" => .ok (.symbolSize (String.ofList (argumentAt 0 arguments)))
  | ".p2align" => (readAlignment name arguments).map .align
  | ".balign" => (readAlignment name arguments).map .align
  | ".align" => (readAlignment name arguments).map .align
  | _ =>
    if (DataDirective.ofName? name).isSome then .ok (.data name (String.ofList arguments))
    else if ".cfi_".toList.isPrefixOf name.toList || bookkeepingNames.contains name then
      .ok (.bookkeeping name)
    else .ok (.other name)

end AsmTranslit
