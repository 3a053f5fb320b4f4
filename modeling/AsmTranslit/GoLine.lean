import AsmTranslit.GoOperand
import AsmTranslit.Statement

/-!
# Go assembler lines

The lines of Go assembler source, by what they say, and their texts.  A data table becomes one line
per item, at the offset where the items before it end, and a last line that gives the symbol its
size.
-/

namespace AsmTranslit

inductive GoLine
  | blank
  | label (name : String)
  | instruction (modifier : Option GoPrefix) (mnemonic : String) (operands : List GoOperand)
  | entry (routine : String)
  | datum (symbol : String) (offset : Nat) (item : DataItem)
  /-- The end of a table: its symbol and size, marked read-only. -/
  | global (symbol : String) (size : Nat)
  deriving DecidableEq, Repr

def GoLine.text : GoLine → String
  | blank => ""
  | label name => name ++ ":"
  | instruction modifier mnemonic operands =>
    "    " ++ (match modifier with
      | some modifier => modifier.name ++ "; "
      | none => "") ++ mnemonic ++
      (if operands.isEmpty then "" else " " ++ ", ".intercalate (operands.map GoOperand.text))
  | entry routine => "TEXT ·_" ++ routine ++ "(SB), 7, $0"
  | datum symbol offset item =>
    "DATA " ++ symbol ++ "+0x" ++ hexDigits 3 offset ++ "(SB)/" ++ toString item.width.bytes ++
      ", $0x" ++ hexDigits (2 * item.width.bytes) item.value.toNat
  | global symbol size => "GLOBL " ++ symbol ++ "(SB), 8, $" ++ toString size

/-- The lines of items, the first at the given offset. -/
def datumLines (symbol : String) (offset : Nat) : List DataItem → List GoLine
  | [] => []
  | item :: items => .datum symbol offset item :: datumLines symbol (offset + item.width.bytes) items

def DataTable.lines (table : DataTable) : List GoLine :=
  datumLines table.symbol 0 table.items ++ [.global table.symbol table.size]

end AsmTranslit
