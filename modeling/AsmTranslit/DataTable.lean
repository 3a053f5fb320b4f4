import AsmTranslit.DataItem
import AsmTranslit.FloatLiteral
import AsmTranslit.IntegerLiteral
import AsmTranslit.QuotedText

/-!
# Data tables

A data table is what the data directives below a label define.  Integers and floating-point numbers
become items of their own width; strings, fills and padding are raw bytes that wait in the builder
until the next number or the end, and are packed then.  Items and waiting bytes together are the
table's byte image, to which every directive only appends.
-/

namespace AsmTranslit

inductive DataDirective
  | integers (width : DataWidth)
  /-- Floating-point numbers in double precision, or in single precision if `single` is set. -/
  | floats (single : Bool)
  /-- A number of equal bytes. -/
  | fill
  /-- Strings, each followed by a zero byte if `terminated` is set. -/
  | strings (terminated : Bool)
  deriving DecidableEq, Repr

def DataDirective.ofName? : String → Option DataDirective
  | ".byte" => some (integers .one)
  | ".short" => some (integers .two)
  | ".value" => some (integers .two)
  | ".word" => some (integers .two)
  | ".2byte" => some (integers .two)
  | ".long" => some (integers .four)
  | ".int" => some (integers .four)
  | ".4byte" => some (integers .four)
  | ".quad" => some (integers .eight)
  | ".8byte" => some (integers .eight)
  | ".float" => some (floats true)
  | ".single" => some (floats true)
  | ".double" => some (floats false)
  | ".zero" => some fill
  | ".skip" => some fill
  | ".space" => some fill
  | ".ascii" => some (strings false)
  | ".asciz" => some (strings true)
  | ".string" => some (strings true)
  | _ => none

inductive DataFault
  | noNumber (argument : String)
  | outOfRange (argument : String) (width : DataWidth)
  | noFloat (argument : String)
  | badCount (arguments : List String)
  | badByte (argument : String)
  | quoted (fault : QuotedFault) (argument : String)
  | noDirective (name : String)
  deriving DecidableEq, Repr

def DataFault.message : DataFault → String
  | noNumber argument =>
    "data value '" ++ argument ++ "' is not a number (symbolic data is not supported)"
  | outOfRange argument width =>
    "data value " ++ argument ++ " does not fit in " ++ toString width.bytes ++ " bytes"
  | noFloat argument => "'" ++ argument ++ "' is not a floating-point number"
  | badCount arguments => "bad fill count in '" ++ ", ".intercalate arguments ++ "'"
  | badByte argument => "bad fill value '" ++ argument ++ "'"
  | quoted fault argument => fault.message argument
  | noDirective name => name ++ " is not a data directive"

structure DataTable where
  label : String
  /-- The alignment in bytes that was asked for in front of the label. -/
  align : Nat
  items : List DataItem
  deriving DecidableEq, Repr

namespace DataTable

def symbol (table : DataTable) : String :=
  goSymbol table.label

def size (table : DataTable) : Nat :=
  table.items.foldr (fun item size => item.width.bytes + size) 0

def bytes (table : DataTable) : List UInt8 :=
  table.items.flatMap DataItem.bytes

def display (table : DataTable) : String :=
  table.label ++ " (" ++ toString table.size ++ " bytes)"

end DataTable

def integerItem (width : DataWidth) (argument : String) : Except DataFault DataItem :=
  match readInteger? argument with
  | none => .error (.noNumber argument)
  | some n =>
    match DataItem.ofInt? width n with
    | none => .error (.outOfRange argument width)
    | some item => .ok item

def floatItem (single : Bool) (argument : String) : Except DataFault DataItem :=
  match readFloat? argument with
  | none => .error (.noFloat argument)
  | some literal =>
    .ok (if single then ⟨.four, BitVec.ofNat _ literal.bits32⟩
      else ⟨.eight, BitVec.ofNat _ literal.bits64⟩)

def stringBytes (terminated : Bool) (argument : String) : Except DataFault (List UInt8) :=
  match readQuoted argument with
  | .error fault => .error (.quoted fault argument)
  | .ok bytes => .ok (if terminated then bytes ++ [0] else bytes)

/-- The number of bytes that a fill asks for, which has to fit 64 bits. -/
def fillCount? (arguments : List String) : Option Nat :=
  match arguments.head?.bind readInteger? with
  | some (.ofNat n) => if n < UInt64.size then some n else none
  | _ => none

/-- The byte that a fill repeats: nought unless the second argument says otherwise. -/
def fillByte (arguments : List String) : Except DataFault UInt8 :=
  match arguments[1]? with
  | none => .ok 0
  | some argument =>
    match (readInteger? argument).bind (DataItem.ofInt? .one) with
    | none => .error (.badByte argument)
    | some item => .ok (UInt8.ofNat item.value.toNat)

def fillBytes (arguments : List String) : Except DataFault (List UInt8) :=
  match fillCount? arguments with
  | none => .error (.badCount arguments)
  | some count => (fillByte arguments).map (List.replicate count)

/-- What the arguments in front of the first faulty one define, and its fault. -/
def readUntilFault {α : Type} (read : String → Except DataFault α) :
    List String → List α × Option DataFault
  | [] => ([], none)
  | argument :: arguments =>
    match read argument with
    | .error fault => ([], some fault)
    | .ok a =>
      let (as, fault) := readUntilFault read arguments
      (a :: as, fault)

structure TableBuilder where
  label : String
  align : Nat
  items : Array DataItem := #[]
  /-- Raw bytes after the items, not yet packed. -/
  waiting : List UInt8 := []
  deriving DecidableEq, Repr

namespace TableBuilder

def size (builder : TableBuilder) : Nat :=
  builder.items.foldr (fun item size => item.width.bytes + size) builder.waiting.length

def bytes (builder : TableBuilder) : List UInt8 :=
  builder.items.toList.flatMap DataItem.bytes ++ builder.waiting

def flush (builder : TableBuilder) : TableBuilder :=
  { builder with items := builder.items ++ (DataItem.pack builder.waiting).toArray, waiting := [] }

def appendItems (builder : TableBuilder) (items : List DataItem) : TableBuilder :=
  let flushed := builder.flush
  { flushed with items := flushed.items ++ items.toArray }

def appendBytes (builder : TableBuilder) (bytes : List UInt8) : TableBuilder :=
  { builder with waiting := builder.waiting ++ bytes }

/-- Add what a directive defines.  Where an argument is at fault, those in front of it stay; a
faulty fill adds nothing.  Memory is taken as unbounded: however long the table grows, the bytes are
added. -/
def defineAs (builder : TableBuilder) (directive : DataDirective) (arguments : List String) :
    TableBuilder × Option DataFault :=
  match directive with
  | .integers width =>
    let (items, fault) := readUntilFault (integerItem width) arguments
    (builder.appendItems items, fault)
  | .floats single =>
    let (items, fault) := readUntilFault (floatItem single) arguments
    (builder.appendItems items, fault)
  | .fill =>
    match fillBytes arguments with
    | .error fault => (builder, some fault)
    | .ok bytes => (builder.appendBytes bytes, none)
  | .strings terminated =>
    let (parts, fault) := readUntilFault (stringBytes terminated) arguments
    (builder.appendBytes parts.flatten, fault)

def define (builder : TableBuilder) (name arguments : String) : TableBuilder × Option DataFault :=
  match DataDirective.ofName? name with
  | none => (builder, some (.noDirective name))
  | some directive => builder.defineAs directive (splitArguments arguments)

/-- Pad with zeros to the next multiple of an alignment, counted from the start of the table.  Memory is
taken as unbounded here as well. -/
def padTo (builder : TableBuilder) (align : Nat) : TableBuilder :=
  builder.appendBytes (List.replicate ((align - builder.size % align) % align) 0)

def finish (builder : TableBuilder) : DataTable :=
  ⟨builder.label, builder.align, builder.flush.items.toList⟩

end TableBuilder

end AsmTranslit
