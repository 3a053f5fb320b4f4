import AsmTranslit.DataTable
import AsmTranslit.Operand

/-!
# Go operands

Operands in the syntax of the Go assembler.  An address is a base register with a displacement and
perhaps an index, an index alone, or a place in a data table with perhaps an index; all registers in
it are 64 bits wide.  An operand that has none of these forms has no rendering.
-/

namespace AsmTranslit

inductive GoAddress
  | based (displacement : Int64) (base : GoRegister) (index : Option (GoRegister × Scale))
  | indexed (displacement : Int64) (index : GoRegister) (scale : Scale)
  /-- A place in a data table: the table's symbol and an offset. -/
  | symbolic (symbol : String) (offset : Int64) (index : Option (GoRegister × Scale))
  deriving DecidableEq, Repr

inductive GoOperand
  | register (register : GoRegister)
  | immediate (value : Int64)
  | address (address : GoAddress)
  | label (name : String)
  deriving DecidableEq, Repr

def decimal (n : Int64) : String :=
  toString n.toInt

def signedDecimal (n : Int64) : String :=
  if 0 ≤ n then "+" ++ decimal n else decimal n

def indexText : Option (GoRegister × Scale) → String
  | some (r, scale) => "(" ++ r.name ++ "*" ++ toString scale.factor ++ ")"
  | none => ""

def GoAddress.text : GoAddress → String
  | based displacement base index =>
    (if displacement = 0 then "" else decimal displacement) ++ "(" ++ base.name ++ ")" ++
      indexText index
  | indexed displacement index scale => decimal displacement ++ indexText (some (index, scale))
  | symbolic symbol offset index =>
    symbol ++ (if offset = 0 then "" else signedDecimal offset) ++ "(SB)" ++ indexText index

def GoOperand.text : GoOperand → String
  | register r => r.name
  | immediate n => "$" ++ decimal n
  | address a => a.text
  | label name => name

inductive FormFault
  | namelessRegister (register : Register)
  | narrowAddress (register : Register)
  | twoRegisters (label : String)
  | segmentOverride (segment : Fin 6)
  | ripWithoutSymbol
  | absoluteAddress (displacement : Int64)
  | symbolAsValue (name : String)
  | branchIntoSymbol (name : String) (addend : Int64)
  | branchToNumber (value : Int64)
  deriving DecidableEq, Repr

def FormFault.message : FormFault → String
  | namelessRegister r => r.intelName ++ " cannot be used as an operand"
  | narrowAddress r => "32-bit address register " ++ r.intelName
  | twoRegisters label => "reference to " ++ label ++ " uses both a base and an index register"
  | segmentOverride n => "segment override " ++ (Register.segment n).intelName ++ ":"
  | ripWithoutSymbol => "rip-relative address without a symbol"
  | absoluteAddress displacement => "absolute address " ++ decimal displacement
  | symbolAsValue name => "symbol " ++ name ++ " used as a value"
  | branchIntoSymbol name addend => "branch to " ++ name ++ signedDecimal addend
  | branchToNumber n => "branch to absolute address " ++ decimal n

inductive RenderFault
  | unsupported (fault : FormFault)
  /-- The symbol is neither a table of the routine nor a label of it. -/
  | unresolved (symbol : String)
  deriving DecidableEq, Repr

def renderRegister (r : Register) : Except RenderFault GoRegister :=
  match r.go? with
  | some go => .ok go
  | none => .error (.unsupported (.namelessRegister r))

/-- A register of an address, which has to be 64 bits wide. -/
def renderAddressRegister (r : Register) : Except RenderFault GoRegister :=
  if r.registerClass = .general ∧ r.size ≠ .qword then .error (.unsupported (.narrowAddress r))
  else renderRegister r

def renderIndex : Option (Register × Scale) → Except RenderFault (Option (GoRegister × Scale))
  | none => .ok none
  | some (r, scale) => do return some (← renderAddressRegister r, scale)

/-- The index of a place in a table.  A base register is as good as an index of scale one, and the
instruction pointer as none. -/
def tableIndex (label : String) (m : MemoryOperand) :
    Except RenderFault (Option (Register × Scale)) :=
  if m.isRipRelative then .ok none
  else
    match m.base, m.index with
    | none, index => .ok index
    | some base, none => .ok (some (base, .one))
    | some _, some _ => .error (.unsupported (.twoRegisters label))

def renderTableReference (tables : List DataTable) (label : String) (m : MemoryOperand) :
    Except RenderFault GoAddress :=
  match tables.find? (fun table => table.label == label) with
  | none => .error (.unresolved label)
  | some table => do
    let index ← tableIndex label m
    return .symbolic table.symbol m.displacement (← renderIndex index)

def renderPlainAddress (m : MemoryOperand) : Except RenderFault GoAddress :=
  match m.base, m.index with
  | none, none => .error (.unsupported (.absoluteAddress m.displacement))
  | some base, index => do
    let base ← renderAddressRegister base
    return .based m.displacement base (← renderIndex index)
  | none, some (index, scale) => do
    return .indexed m.displacement (← renderAddressRegister index) scale

def renderMemory (tables : List DataTable) (m : MemoryOperand) : Except RenderFault GoAddress :=
  match m.segment with
  | some n => .error (.unsupported (.segmentOverride n))
  | none =>
    match m.symbol with
    | some label => renderTableReference tables label m
    | none =>
      if m.isRipRelative then .error (.unsupported .ripWithoutSymbol) else renderPlainAddress m

def renderOperand (tables : List DataTable) : Operand → Except RenderFault GoOperand
  | .register r => (renderRegister r).map .register
  | .immediate n => .ok (.immediate n)
  | .memory m => (renderMemory tables m).map .address
  | .symbol name _ => .error (.unsupported (.symbolAsValue name))

/-- The count of a shift, where Go gives the register `cl` its wide name. -/
def renderCount (tables : List DataTable) (operand : Operand) : Except RenderFault GoOperand :=
  if operand = .register (.general .byte 1) then .ok (.register (.general 1))
  else renderOperand tables operand

/-- The target of a branch.  Labels are those of the routine with their new names. -/
def renderTarget (tables : List DataTable) (labels : List (String × String)) :
    Operand → Except RenderFault GoOperand
  | .symbol name addend =>
    if addend = 0 then
      match labels.lookup name with
      | some renamed => .ok (.label renamed)
      | none => .error (.unresolved name)
    else .error (.unsupported (.branchIntoSymbol name addend))
  | .register r => (renderRegister r).map .register
  | .memory m => (renderMemory tables m).map .address
  | .immediate n => .error (.unsupported (.branchToNumber n))

end AsmTranslit
