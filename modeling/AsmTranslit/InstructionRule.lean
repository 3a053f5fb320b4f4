import AsmTranslit.Condition
import AsmTranslit.Operand

/-!
# Instruction rules

How an Intel instruction is written for the Go assembler: the spelling of its mnemonic, the order of
its operands, and what is done with them.  Integer mnemonics end in a letter for the size of the
operands, which is that of the first general register or sized memory operand.
-/

namespace AsmTranslit

inductive Spelling
  /-- The Intel mnemonic in upper case. -/
  | same
  | fixed (go : String)
  /-- A stem and the size of the operands, or a default size if no operand has one. -/
  | suffixed (stem : String) (default : Option Size)
  /-- One of two mnemonics, for an integer operand of four or of eight bytes. -/
  | widths (long quad : String)
  /-- A zero or sign extension, which names the sizes of its source and its destination. -/
  | extend (signed : Bool)
  /-- Signed multiplication, whose form with three operands has its own stem. -/
  | multiply
  | jump (condition : Condition)
  | set (condition : Condition)
  | move (condition : Condition)
  deriving DecidableEq, Repr

inductive OperandOrder
  /-- Sources first, the destination last. -/
  | reverse
  | keep
  /-- As in Intel syntax, but the first two exchanged. -/
  | swapFirstTwo
  deriving DecidableEq, Repr

inductive Treatment
  | plain
  /-- The operand is a target of control, perhaps a label. -/
  | branch
  | ret
  /-- The operands only lengthen the encoding and are dropped. -/
  | nop
  /-- The operands only repeat the implied registers and are dropped. -/
  | stringOp
  /-- The last operand is a count, whose register Go calls `CX`. -/
  | shift
  deriving DecidableEq, Repr

structure Rule where
  spelling : Spelling
  order : OperandOrder
  treatment : Treatment
  deriving DecidableEq, Repr

inductive MnemonicFault
  | unknownSize (mnemonic : String)
  | unsuitableSize (mnemonic : String) (size : Size)
  deriving DecidableEq, Repr

def MnemonicFault.message : MnemonicFault → String
  | unknownSize mnemonic => "cannot determine the operand size of " ++ mnemonic
  | unsuitableSize mnemonic size =>
    mnemonic ++ " cannot operate on a " ++ size.keyword ++ " operand"

def Operand.integerSize? : Operand → Option Size
  | register r => if r.registerClass = .general then some r.size else none
  | memory m => m.size
  | _ => none

/-- The size of an integer instruction: that of the first operand which gives one. -/
def integerSize? (operands : List Operand) : Option Size :=
  operands.findSome? Operand.integerSize?

def sizeLetter (mnemonic : String) (size : Size) : Except MnemonicFault String :=
  match size.goSuffix? with
  | some letter => .ok (String.singleton letter)
  | none => .error (.unsuitableSize mnemonic size)

def knownSizeLetter (mnemonic : String) (size : Option Size) : Except MnemonicFault String :=
  match size with
  | some size => sizeLetter mnemonic size
  | none => .error (.unknownSize mnemonic)

/-- The Go mnemonic of an Intel mnemonic with operands in Intel order. -/
def Spelling.goMnemonic (spelling : Spelling) (mnemonic : String) (operands : List Operand) :
    Except MnemonicFault String :=
  match spelling with
  | same => .ok (upperCase mnemonic)
  | fixed go => .ok go
  | suffixed stem default => do
    return stem ++ (← knownSizeLetter mnemonic ((integerSize? operands).or default))
  | widths long quad =>
    match integerSize? operands with
    | some .dword => .ok long
    | some .qword => .ok quad
    | some size => .error (.unsuitableSize mnemonic size)
    | none => .error (.unknownSize mnemonic)
  | extend signed =>
    match operands[1]?.bind Operand.size?, operands[0]?.bind Operand.size? with
    | some source, some destination => do
      let fromLetter ← sizeLetter mnemonic source
      let toLetter ← sizeLetter mnemonic destination
      return "MOV" ++ fromLetter ++ toLetter ++ (if signed then "SX" else "ZX")
    | _, _ => .error (.unknownSize mnemonic)
  | multiply => do
    let letter ← knownSizeLetter mnemonic (integerSize? operands)
    return (if operands.length = 3 then "IMUL3" else "IMUL") ++ letter
  | jump condition => .ok ("J" ++ condition.goName)
  | set condition => .ok ("SET" ++ condition.goName)
  | move condition => do
    let letter ← knownSizeLetter mnemonic (integerSize? operands)
    return "CMOV" ++ letter ++ condition.goName

def OperandOrder.arrange {α : Type} (order : OperandOrder) (operands : List α) : List α :=
  match order, operands with
  | reverse, _ => operands.reverse
  | swapFirstTwo, a :: b :: rest => b :: a :: rest
  | _, _ => operands

end AsmTranslit
