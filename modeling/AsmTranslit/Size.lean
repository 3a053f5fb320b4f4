import AsmTranslit.Symbol

/-!
# Operand sizes

The width of an operand.  In a listing it is a keyword in front of `ptr`, or part of a register's
name; in Go source it is a letter at the end of an integer mnemonic.
-/

namespace AsmTranslit

/-- The width of an operand, by its keyword; `tbyte` is the ten-byte floating-point format. -/
inductive Size
  | byte
  | word
  | dword
  | qword
  | tbyte
  | xmmword
  | ymmword
  | zmmword
  deriving DecidableEq, Repr

namespace Size

def bytes : Size → Nat
  | byte => 1
  | word => 2
  | dword => 4
  | qword => 8
  | tbyte => 10
  | xmmword => 16
  | ymmword => 32
  | zmmword => 64

def keyword : Size → String
  | byte => "byte"
  | word => "word"
  | dword => "dword"
  | qword => "qword"
  | tbyte => "tbyte"
  | xmmword => "xmmword"
  | ymmword => "ymmword"
  | zmmword => "zmmword"

def ofKeyword? (word : String) : Option Size :=
  match lowerCase word with
  | "byte" => some byte
  | "word" => some Size.word
  | "dword" => some dword
  | "qword" => some qword
  | "tbyte" => some tbyte
  | "xword" => some tbyte
  | "xmmword" => some xmmword
  | "oword" => some xmmword
  | "ymmword" => some ymmword
  | "zmmword" => some zmmword
  | _ => none

/-- The letter that ends a Go integer mnemonic; only the four integer sizes have one. -/
def goSuffix? : Size → Option Char
  | byte => some 'B'
  | word => some 'W'
  | dword => some 'L'
  | qword => some 'Q'
  | _ => none

end Size

end AsmTranslit
