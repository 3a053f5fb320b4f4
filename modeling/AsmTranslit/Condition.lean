/-!
# Conditions

The sixteen conditions of the flags register, on which conditional jumps, sets and moves depend.
-/

namespace AsmTranslit

inductive Condition
  | equal
  | notEqual
  | less
  | lessOrEqual
  | greater
  | greaterOrEqual
  | below
  | belowOrEqual
  | above
  | aboveOrEqual
  | sign
  | notSign
  | overflow
  | notOverflow
  | parity
  | notParity
  deriving DecidableEq, Repr

namespace Condition

def ofIntel? : String → Option Condition
  | "e" => some equal
  | "z" => some equal
  | "ne" => some notEqual
  | "nz" => some notEqual
  | "l" => some less
  | "nge" => some less
  | "le" => some lessOrEqual
  | "ng" => some lessOrEqual
  | "g" => some greater
  | "nle" => some greater
  | "ge" => some greaterOrEqual
  | "nl" => some greaterOrEqual
  | "b" => some below
  | "c" => some below
  | "nae" => some below
  | "be" => some belowOrEqual
  | "na" => some belowOrEqual
  | "a" => some above
  | "nbe" => some above
  | "ae" => some aboveOrEqual
  | "nb" => some aboveOrEqual
  | "nc" => some aboveOrEqual
  | "s" => some sign
  | "ns" => some notSign
  | "o" => some overflow
  | "no" => some notOverflow
  | "p" => some parity
  | "pe" => some parity
  | "np" => some notParity
  | "po" => some notParity
  | _ => none

/-- The Go assembler's name of the condition, as in `JEQ`, `SETHI` and `CMOVQLT`. -/
def goName : Condition → String
  | equal => "EQ"
  | notEqual => "NE"
  | less => "LT"
  | lessOrEqual => "LE"
  | greater => "GT"
  | greaterOrEqual => "GE"
  | below => "CS"
  | belowOrEqual => "LS"
  | above => "HI"
  | aboveOrEqual => "CC"
  | sign => "MI"
  | notSign => "PL"
  | overflow => "OS"
  | notOverflow => "OC"
  | parity => "PS"
  | notParity => "PC"

end Condition

end AsmTranslit
