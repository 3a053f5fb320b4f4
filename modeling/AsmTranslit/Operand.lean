import AsmTranslit.Register

/-!
# Operands

What an operand of an instruction denotes, and how a memory operand is built from the signed terms
that are written in it.  The effective address of a memory operand is its base, plus its index times
its scale, plus its symbol, plus its displacement, all modulo two to the power of 64.  Terms are taken
in from left to right.  An unscaled register becomes the base while there is none; an index of
scale one that came before any base gives way to a scaled one and becomes the base.
-/

namespace AsmTranslit

inductive Scale
  | one
  | two
  | four
  | eight
  deriving DecidableEq, Repr

def Scale.factor : Scale → Nat
  | one => 1
  | two => 2
  | four => 4
  | eight => 8

def Scale.ofFactor? (n : UInt64) : Option Scale :=
  if n = 1 then some one
  else if n = 2 then some two
  else if n = 4 then some four
  else if n = 8 then some eight
  else none

inductive Term
  | register (register : Register)
  | scaled (register : Register) (factor : UInt64)
  | number (value : UInt64)
  | symbol (name : String)
  deriving DecidableEq, Repr

/-- A term that is added, or subtracted if `negative` is set. -/
structure SignedTerm where
  negative : Bool
  term : Term
  deriving DecidableEq, Repr

/-- A reference to memory.  `size` and `segment` are there if the operand says so. -/
structure MemoryOperand where
  size : Option Size := none
  segment : Option (Fin 6) := none
  base : Option Register := none
  index : Option (Register × Scale) := none
  displacement : Int64 := 0
  symbol : Option String := none
  deriving DecidableEq, Repr

inductive Operand
  | register (register : Register)
  | immediate (value : Int64)
  | memory (reference : MemoryOperand)
  | symbol (name : String) (addend : Int64)
  deriving DecidableEq, Repr

def Operand.size? : Operand → Option Size
  | register r => some r.size
  | memory m => m.size
  | _ => none

def Operand.isVector : Operand → Bool
  | register (.vector _ _) => true
  | _ => false

/-- The 64-bit word of a number under a sign; both wrap. -/
def signedWord (negative : Bool) (n : UInt64) : Int64 :=
  if negative then -n.toInt64 else n.toInt64

def MemoryOperand.isRipRelative (m : MemoryOperand) : Bool :=
  m.base == some .instructionPointer

inductive AddressFault
  | registerOutside
  | negatedSymbol (name : String)
  | secondSymbol (first second : String)
  | negatedRegister
  | unusable (register : Register)
  | tooManyRegisters
  | secondIndex
  | badFactor (factor : UInt64)
  | ripIndex
  | ripWithIndex
  deriving DecidableEq, Repr

def AddressFault.message : AddressFault → String
  | registerOutside => "registers must appear inside the brackets"
  | negatedSymbol name => "cannot subtract symbol " ++ name
  | secondSymbol first second =>
    "address refers to more than one symbol (" ++ first ++ " and " ++ second ++ ")"
  | negatedRegister => "cannot subtract a register"
  | unusable r => r.intelName ++ " cannot be used in an address"
  | tooManyRegisters => "too many registers in address"
  | secondIndex => "address has more than one index register"
  | badFactor factor => "scale must be 1, 2, 4 or 8, not " ++ toString factor.toNat
  | ripIndex => "rip cannot be an index register"
  | ripWithIndex => "a rip-relative address cannot have an index"

/-- The registers that addresses are made of: the instruction pointer and the general registers of
four or eight bytes. -/
def Register.isUsableInAddress : Register → Bool
  | .general .qword _ => true
  | .general .dword _ => true
  | .instructionPointer => true
  | _ => false

def Term.hasRegister : Term → Bool
  | register _ => true
  | scaled _ _ => true
  | _ => false

namespace MemoryOperand

def addNumber (m : MemoryOperand) (negative : Bool) (n : UInt64) : MemoryOperand :=
  { m with displacement := m.displacement + signedWord negative n }

def addSymbol (m : MemoryOperand) (name : String) : Except AddressFault MemoryOperand :=
  match m.symbol with
  | some first => .error (.secondSymbol first name)
  | none => .ok { m with symbol := some name }

def addRegister (m : MemoryOperand) (r : Register) : Except AddressFault MemoryOperand :=
  if !r.isUsableInAddress then .error (.unusable r)
  else
    match m.base, m.index with
    | none, _ => .ok { m with base := some r }
    | some _, none => .ok { m with index := some (r, .one) }
    | some _, some _ => .error .tooManyRegisters

def addScaled (m : MemoryOperand) (r : Register) (factor : UInt64) :
    Except AddressFault MemoryOperand :=
  if !r.isUsableInAddress then .error (.unusable r)
  else if r = .instructionPointer then .error .ripIndex
  else
    match Scale.ofFactor? factor with
    | none => .error (.badFactor factor)
    | some scale =>
      match m.index, m.base with
      | none, _ => .ok { m with index := some (r, scale) }
      | some (unscaled, .one), none => .ok { m with base := some unscaled, index := some (r, scale) }
      | some _, _ => .error .secondIndex

def addTerm (m : MemoryOperand) (t : SignedTerm) : Except AddressFault MemoryOperand :=
  match t.term with
  | .number n => .ok (m.addNumber t.negative n)
  | .symbol name => if t.negative then .error (.negatedSymbol name) else m.addSymbol name
  | .register r => if t.negative then .error .negatedRegister else m.addRegister r
  | .scaled r factor => if t.negative then .error .negatedRegister else m.addScaled r factor

/-- The instruction pointer is no index, and an address relative to it has none. -/
def checkIndex (m : MemoryOperand) : Except AddressFault MemoryOperand :=
  match m.index with
  | none => .ok m
  | some (index, _) =>
    if index = .instructionPointer then .error .ripIndex
    else if m.isRipRelative then .error .ripWithIndex
    else .ok m

end MemoryOperand

/-- A memory operand as it is written: the terms before the brackets and those within. -/
structure MemoryForm where
  size : Option Size
  segment : Option (Fin 6)
  outer : List SignedTerm
  inner : List SignedTerm
  deriving DecidableEq, Repr

def MemoryForm.reference (form : MemoryForm) : Except AddressFault MemoryOperand :=
  if form.outer.any (·.term.hasRegister) then .error .registerOutside
  else do
    let m ← (form.outer ++ form.inner).foldlM MemoryOperand.addTerm
      { size := form.size, segment := form.segment }
    m.checkIndex

end AsmTranslit
