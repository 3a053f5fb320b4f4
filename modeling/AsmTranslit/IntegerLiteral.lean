import AsmTranslit.Numeral
import AsmTranslit.WhiteSpace

/-!
# Integer literals

The integers of data directives, with a sign and a radix mark: `0x` and `0b` start hexadecimal and
binary numerals, a zero before further digits an octal one.
-/

namespace AsmTranslit

-- Powers are those of the core library, whichever other ones are in scope.
attribute [local instance (high)] instPowNat

def readMagnitude? : List Char → Option Nat
  | '0' :: 'x' :: digits => readNumeral? 16 digits
  | '0' :: 'X' :: digits => readNumeral? 16 digits
  | '0' :: 'b' :: digits => readNumeral? 2 digits
  | '0' :: 'B' :: digits => readNumeral? 2 digits
  | '0' :: digit :: digits => readNumeral? 8 (digit :: digits)
  | digits => readNumeral? 10 digits

def magnitudeBound : Nat := 2 ^ (127 : Nat)

def readBoundedMagnitude? (cs : List Char) : Option Nat :=
  (readMagnitude? cs).filter (· < magnitudeBound)

/-- The integer that a text denotes.  Blanks may surround it and follow a minus sign, but not a
plus sign. -/
def readInteger? (text : String) : Option Int :=
  match trim text.toList with
  | '-' :: cs => (readBoundedMagnitude? (trimStart cs)).map fun n => -(n : Int)
  | '+' :: cs => (readBoundedMagnitude? cs).map Int.ofNat
  | cs => (readBoundedMagnitude? cs).map Int.ofNat

end AsmTranslit
