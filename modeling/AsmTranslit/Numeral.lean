/-!
# Numerals

Digits of a radix up to sixteen, the value of a digit list, and the hexadecimal digits of a number.
Reading is positional: `numeralValue` is the fold that multiplies by the radix before each digit.
-/

namespace AsmTranslit

def digitValue? (c : Char) : Option Nat :=
  if '0' ≤ c ∧ c ≤ '9' then some (c.toNat - '0'.toNat)
  else if 'a' ≤ c ∧ c ≤ 'f' then some (c.toNat - 'a'.toNat + 10)
  else if 'A' ≤ c ∧ c ≤ 'F' then some (c.toNat - 'A'.toNat + 10)
  else none

def isDigitOf (radix : Nat) (c : Char) : Bool :=
  (digitValue? c).any (· < radix)

/-- The number that a list of digits denotes, the first digit weighing most. -/
def numeralValue (radix : Nat) (cs : List Char) : Nat :=
  cs.foldl (fun n c => n * radix + (digitValue? c).getD 0) 0

def readNumeral? (radix : Nat) (cs : List Char) : Option Nat :=
  if !cs.isEmpty && cs.all (isDigitOf radix) then some (numeralValue radix cs) else none

/-- The hexadecimal digits of a number, in lower case, with zeros in front up to `places`. -/
def hexDigits (places n : Nat) : String :=
  String.ofList (List.leftpad places '0' (Nat.toDigits 16 n))

@[simp] theorem numeralValue_nil (radix : Nat) : numeralValue radix [] = 0 := rfl

theorem numeralValue_concat (radix : Nat) (cs : List Char) (c : Char) :
    numeralValue radix (cs ++ [c]) = numeralValue radix cs * radix + (digitValue? c).getD 0 := by
  simp [numeralValue]

end AsmTranslit
