import AsmTranslit.GoOperand
import AsmTranslit.InstructionRule
import AsmTranslit.OperandReader
import AsmTranslit.SourceLine

/-!
# Failures

What keeps a listing from being written for the Go assembler.  There is one failure at most: where it
is, and its cause.  Nothing is put out when there is one.
-/

namespace AsmTranslit

structure Location where
  /-- The number of the line, counted from one. -/
  line : Nat
  /-- The routine that the line belongs to, if any. -/
  routine : Option String
  text : String
  deriving DecidableEq, Repr

def Location.at (index : Nat) (routine : Option String) (text : String) : Location :=
  ⟨index + 1, routine, trimText text⟩

def Location.message (location : Location) : String :=
  "line " ++ toString location.line ++
    (match location.routine with
      | some routine => " (in routine " ++ routine ++ ")"
      | none => "") ++
    ": '" ++ location.text ++ "'"

inductive StructuralFault
  | line (fault : LineFault)
  | alignment (fault : AlignmentFault)
  | repeatedRoutine (name : String)
  | repeatedTable (label : String)
  /-- Two labels that have the same Go symbol. -/
  | symbolClash (first second symbol : String)
  | data (table : String) (fault : DataFault)
  | unlabelledData
  | strayInstruction
  | repeatedLabel (name : String)
  deriving DecidableEq, Repr

def StructuralFault.message : StructuralFault → String
  | line fault => fault.message
  | alignment fault => fault.message
  | repeatedRoutine name => "routine " ++ name ++ " is defined twice"
  | repeatedTable label => "data label " ++ label ++ " is defined twice"
  | symbolClash first second symbol =>
    "data labels " ++ first ++ " and " ++ second ++ " would both become Go symbol " ++ symbol
  | data table fault => "in table " ++ table ++ ": " ++ fault.message
  | unlabelledData => "read-only data has no label"
  | strayInstruction => "instruction outside any routine"
  | repeatedLabel name => "label " ++ name ++ " is defined more than once"

inductive InstructionFault
  | operand (fault : OperandFault) (text : String)
  | mnemonic (fault : MnemonicFault)
  | form (fault : FormFault)
  | secondModifier
  | modifierWithoutNop (word : String)
  | returnWithOperands
  | operandCount (name : String) (count : Nat)
  deriving DecidableEq, Repr

def InstructionFault.message : InstructionFault → String
  | operand fault text => fault.message text
  | mnemonic fault => fault.message
  | form fault => fault.message
  | secondModifier => "more than one prefix"
  | modifierWithoutNop word => "prefix " ++ word ++ " is only accepted on nop"
  | returnWithOperands => "return with a stack adjustment"
  | operandCount name count => name ++ " has " ++ toString count ++ " operands"

inductive Cause
  | structural (fault : StructuralFault)
  | unsupportedInstruction (mnemonic : String)
  | unsupportedOperand (fault : InstructionFault)
  | unsupportedDirective (name : String)
  | unresolvedReference (symbol : String)
  deriving DecidableEq, Repr

def Cause.message : Cause → String
  | structural fault => fault.message
  | unsupportedInstruction mnemonic => "unsupported instruction '" ++ mnemonic ++ "'"
  | unsupportedOperand fault => "unsupported operand: " ++ fault.message
  | unsupportedDirective name => "directive " ++ name ++ " cannot appear inside a routine body"
  | unresolvedReference symbol => "unresolved reference to '" ++ symbol ++ "'"

def RenderFault.cause : RenderFault → Cause
  | unsupported fault => .unsupportedOperand (.form fault)
  | unresolved symbol => .unresolvedReference symbol

structure Failure where
  location : Location
  cause : Cause
  deriving DecidableEq, Repr

def Failure.message (failure : Failure) : String :=
  failure.location.message ++ ": " ++ failure.cause.message

/-- What the user should know about a result: a routine refers to several tables, and only the first
was associated with it. -/
structure Warning where
  routine : String
  honoured : String
  ignored : List String
  deriving DecidableEq, Repr

def Warning.message (warning : Warning) : String :=
  "routine " ++ warning.routine ++ " references several data tables; only " ++ warning.honoured ++
    " is associated with it (ignoring " ++ ", ".intercalate warning.ignored ++ ")"

end AsmTranslit
