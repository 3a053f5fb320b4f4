import AsmTranslit.Numeral
import AsmTranslit.Size

/-!
# Registers

The registers of the x86-64 processor under their two names.  A listing has a name for each width
of a general register (`rax`, `eax`, `ax`, `al`); the Go assembler has one name for the three wider
ones (`AX`) and leaves the width to the mnemonic.  `GoRegister` is what the second set of names
tells apart.  The instruction pointer has no name there.
-/

namespace AsmTranslit

/-- The part of a general register that an operand uses, counted from its low end. -/
inductive GeneralWidth
  | byte
  | word
  | dword
  | qword
  deriving DecidableEq, Repr

/-- The part of a vector register that an operand uses. -/
inductive VectorWidth
  | xmm
  | ymm
  | zmm
  deriving DecidableEq, Repr

/-- A register; numbers are those of the machine encoding. -/
inductive Register
  | general (width : GeneralWidth) (number : Fin 16)
  /-- The second byte of one of the first four general registers. -/
  | highByte (number : Fin 4)
  | vector (width : VectorWidth) (number : Fin 32)
  | mask (number : Fin 8)
  | segment (number : Fin 6)
  | instructionPointer
  deriving DecidableEq, Repr

inductive RegisterClass
  | general
  | vector
  | mask
  | segment
  | instructionPointer
  deriving DecidableEq, Repr

inductive GoRegister
  /-- A general register whose width of two, four or eight bytes the mnemonic gives. -/
  | general (number : Fin 16)
  | lowByte (number : Fin 16)
  | highByte (number : Fin 4)
  | vector (width : VectorWidth) (number : Fin 32)
  | mask (number : Fin 8)
  | segment (number : Fin 6)
  deriving DecidableEq, Repr

def GeneralWidth.size : GeneralWidth → Size
  | byte => .byte
  | word => .word
  | dword => .dword
  | qword => .qword

def GeneralWidth.names : GeneralWidth → Vector String 16
  | byte =>
    #v["al", "cl", "dl", "bl", "spl", "bpl", "sil", "dil",
      "r8b", "r9b", "r10b", "r11b", "r12b", "r13b", "r14b", "r15b"]
  | word =>
    #v["ax", "cx", "dx", "bx", "sp", "bp", "si", "di",
      "r8w", "r9w", "r10w", "r11w", "r12w", "r13w", "r14w", "r15w"]
  | dword =>
    #v["eax", "ecx", "edx", "ebx", "esp", "ebp", "esi", "edi",
      "r8d", "r9d", "r10d", "r11d", "r12d", "r13d", "r14d", "r15d"]
  | qword =>
    #v["rax", "rcx", "rdx", "rbx", "rsp", "rbp", "rsi", "rdi",
      "r8", "r9", "r10", "r11", "r12", "r13", "r14", "r15"]

def VectorWidth.size : VectorWidth → Size
  | xmm => .xmmword
  | ymm => .ymmword
  | zmm => .zmmword

def VectorWidth.intelFamily : VectorWidth → String
  | xmm => "xmm"
  | ymm => "ymm"
  | zmm => "zmm"

def VectorWidth.goFamily : VectorWidth → String
  | xmm => "X"
  | ymm => "Y"
  | zmm => "Z"

namespace Register

def highByteNames : Vector String 4 :=
  #v["ah", "ch", "dh", "bh"]

def segmentNames : Vector String 6 :=
  #v["es", "cs", "ss", "ds", "fs", "gs"]

def intelName : Register → String
  | general width number => width.names[number]
  | highByte number => highByteNames[number]
  | vector width number => width.intelFamily ++ toString number.val
  | mask number => "k" ++ toString number.val
  | segment number => segmentNames[number]
  | instructionPointer => "rip"

def size : Register → Size
  | general width _ => width.size
  | highByte _ => .byte
  | vector width _ => width.size
  | mask _ => .qword
  | segment _ => .word
  | instructionPointer => .qword

def registerClass : Register → RegisterClass
  | general _ _ => .general
  | highByte _ => .general
  | vector _ _ => .vector
  | mask _ => .mask
  | segment _ => .segment
  | instructionPointer => .instructionPointer

/-- The register as the Go assembler tells registers apart, which has no instruction pointer. -/
def go? : Register → Option GoRegister
  | general .byte number => some (.lowByte number)
  | general _ number => some (.general number)
  | highByte number => some (.highByte number)
  | vector width number => some (.vector width number)
  | mask number => some (.mask number)
  | segment number => some (.segment number)
  | instructionPointer => none

/-- The registers that have a name of their own, in the order in which names are tried. -/
def named : List Register :=
  [GeneralWidth.qword, .dword, .word, .byte].flatMap (fun width =>
      (List.finRange 16).map (general width)) ++
    (List.finRange 4).map highByte ++ (List.finRange 6).map segment ++ [instructionPointer]

/-- The number at the end of a family's name.  A zero may stand in front only alone, and one
plus sign may precede the digits. -/
def familyNumber? (limit : Nat) (cs : List Char) : Option (Fin limit) :=
  if cs.length > 1 ∧ cs.head? = some '0' then none
  else
    let digits := match cs with
      | '+' :: digits => digits
      | digits => digits
    match readNumeral? 10 digits with
    | some n => if h : n < limit then some ⟨n, h⟩ else none
    | none => none

def inFamily? (family : String) (limit : Nat) (register : Fin limit → Register) (name : String) :
    Option Register :=
  (family.toList.isPrefixOf? name.toList).bind fun digits =>
    (familyNumber? limit digits).map register

def ofIntel? (name : String) : Option Register :=
  let lower := lowerCase name
  named.find? (fun r => r.intelName == lower)
    <|> inFamily? "xmm" 32 (vector .xmm) lower
    <|> inFamily? "ymm" 32 (vector .ymm) lower
    <|> inFamily? "zmm" 32 (vector .zmm) lower
    <|> inFamily? "k" 8 mask lower

end Register

namespace GoRegister

def generalNames : Vector String 16 :=
  #v["AX", "CX", "DX", "BX", "SP", "BP", "SI", "DI",
    "R8", "R9", "R10", "R11", "R12", "R13", "R14", "R15"]

def lowByteNames : Vector String 16 :=
  #v["AL", "CL", "DL", "BL", "SPB", "BPB", "SIB", "DIB",
    "R8B", "R9B", "R10B", "R11B", "R12B", "R13B", "R14B", "R15B"]

def highByteNames : Vector String 4 :=
  #v["AH", "CH", "DH", "BH"]

def segmentNames : Vector String 6 :=
  #v["ES", "CS", "SS", "DS", "FS", "GS"]

def name : GoRegister → String
  | general number => generalNames[number]
  | lowByte number => lowByteNames[number]
  | highByte number => highByteNames[number]
  | vector width number => width.goFamily ++ toString number.val
  | mask number => "K" ++ toString number.val
  | segment number => segmentNames[number]

end GoRegister

end AsmTranslit
