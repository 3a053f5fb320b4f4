/-!
# Binary floating-point formats

Positive ratios rounded to the nearest number of a binary interchange format, ties to the even
significand.  Numbers are measured in the format's least positive number, so a finite number is a
natural number of units, and rounding stays within the natural numbers.  The pattern of a number is
its exponent and fraction without the sign; patterns grow with the numbers they stand for, and the
first one after the finite numbers is infinity.
-/

namespace AsmTranslit

-- Powers are those of the core library, whichever other ones are in scope.
attribute [local instance (high)] instPowNat

/-- A binary interchange format: the bits of a significand, leading bit included, and of the
exponent. -/
structure FloatFormat where
  precision : Nat
  exponentBits : Nat
  deriving DecidableEq, Repr

def roundHalfEven (num den : Nat) : Nat :=
  if 2 * (num % den) < den ∨ 2 * (num % den) = den ∧ num / den % 2 = 0 then num / den
  else num / den + 1

namespace FloatFormat

def binary32 : FloatFormat := ⟨24, 8⟩

def binary64 : FloatFormat := ⟨53, 11⟩

/-- The format's least positive number is two to the power of minus this. -/
def unitExponent (format : FloatFormat) : Nat :=
  2 ^ (format.exponentBits - 1) + format.precision - 3

/-- One more than the greatest fraction. -/
def fractionBound (format : FloatFormat) : Nat :=
  2 ^ (format.precision - 1)

def infinity (format : FloatFormat) : Nat :=
  (2 ^ format.exponentBits - 1) * format.fractionBound

def notANumber (format : FloatFormat) : Nat :=
  format.infinity + format.fractionBound / 2

def signWeight (format : FloatFormat) : Nat :=
  2 ^ format.exponentBits * format.fractionBound

/-- The pattern of the finite number nearest to `num / den` units, or of infinity if that number
would need a greater exponent. -/
def nearest (format : FloatFormat) (num den : Nat) : Nat :=
  let exponent := Nat.log2 (num / den) - (format.precision - 1)
  min format.infinity
    (exponent * format.fractionBound + roundHalfEven num (den * 2 ^ exponent))

def units (format : FloatFormat) (pattern : Nat) : Nat :=
  let exponent := pattern / format.fractionBound
  let fraction := pattern % format.fractionBound
  if exponent = 0 then fraction else (format.fractionBound + fraction) * 2 ^ (exponent - 1)

end FloatFormat

def narrow (pattern : Nat) : Nat :=
  if pattern < FloatFormat.binary64.infinity then
    FloatFormat.binary32.nearest (FloatFormat.binary64.units pattern)
      (2 ^ (FloatFormat.binary64.unitExponent - FloatFormat.binary32.unitExponent))
  else if pattern = FloatFormat.binary64.infinity then FloatFormat.binary32.infinity
  else FloatFormat.binary32.notANumber

end AsmTranslit
