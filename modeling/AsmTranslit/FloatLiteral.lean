import AsmTranslit.BinaryFloat
import AsmTranslit.Numeral
import AsmTranslit.Symbol

/-!
# Floating-point literals

The numbers of floating-point data directives: decimal numerals with a fraction and an exponent, and
the names of infinity and of the value that is no number.  A literal has a double-precision pattern;
its single-precision pattern is that one narrowed.
-/

namespace AsmTranslit

-- Powers are those of the core library, whichever other ones are in scope.
attribute [local instance (high)] instPowNat

inductive FloatMagnitude
  /-- The digits as a number, how many there are, and the power of ten that they are scaled by. -/
  | decimal (digits places : Nat) (exponent : Int)
  | infinity
  | notANumber
  deriving DecidableEq, Repr

structure FloatLiteral where
  negative : Bool
  magnitude : FloatMagnitude
  deriving DecidableEq, Repr

/-- The power of ten at the end of a decimal numeral, which is nought if nothing is written. -/
def readExponent? : List Char → Option Int
  | [] => some 0
  | mark :: cs =>
    if mark == 'e' || mark == 'E' then
      match cs with
      | '-' :: digits => (readNumeral? 10 digits).map fun n => -(n : Int)
      | '+' :: digits => (readNumeral? 10 digits).map Int.ofNat
      | digits => (readNumeral? 10 digits).map Int.ofNat
    else none

def fractionDigits : List Char → List Char × List Char
  | '.' :: cs => cs.span Char.isDigit
  | cs => ([], cs)

def readDecimal? (cs : List Char) : Option FloatMagnitude :=
  let (whole, afterWhole) := cs.span Char.isDigit
  let (fraction, afterFraction) := fractionDigits afterWhole
  let digits := whole ++ fraction
  if digits.isEmpty then none
  else (readExponent? afterFraction).map fun exponent =>
    .decimal (numeralValue 10 digits) digits.length (exponent - fraction.length)

def readFloatMagnitude? (cs : List Char) : Option FloatMagnitude :=
  match lowerCase (String.ofList cs) with
  | "inf" => some .infinity
  | "infinity" => some .infinity
  | "nan" => some .notANumber
  | _ => readDecimal? cs

def readFloat? (text : String) : Option FloatLiteral :=
  match text.toList with
  | '-' :: cs => (readFloatMagnitude? cs).map (⟨true, ·⟩)
  | '+' :: cs => (readFloatMagnitude? cs).map (⟨false, ·⟩)
  | cs => (readFloatMagnitude? cs).map (⟨false, ·⟩)

/-- The double-precision pattern nearest to a magnitude.  Decimals below the power of ten with
exponent -324 are below half the least number, and from exponent 309 on they are infinite, so that
no greater power of ten is ever formed. -/
def FloatMagnitude.pattern : FloatMagnitude → Nat
  | decimal digits places exponent =>
    if digits = 0 ∨ places + exponent ≤ -324 then 0
    else if 309 ≤ exponent then FloatFormat.binary64.infinity
    else
      FloatFormat.binary64.nearest
        (digits * 10 ^ exponent.toNat * 2 ^ FloatFormat.binary64.unitExponent)
        (10 ^ (-exponent).toNat)
  | infinity => FloatFormat.binary64.infinity
  | notANumber => FloatFormat.binary64.notANumber

def FloatLiteral.bits64 (literal : FloatLiteral) : Nat :=
  (if literal.negative then FloatFormat.binary64.signWeight else 0) + literal.magnitude.pattern

/-- The bits of a literal in single precision, rounded from double precision. -/
def FloatLiteral.bits32 (literal : FloatLiteral) : Nat :=
  (if literal.negative then FloatFormat.binary32.signWeight else 0) +
    narrow literal.magnitude.pattern

end AsmTranslit
