/-!
# Data items

A data item is one constant of one, two, four or eight bytes, written little-endian.  Raw bytes are
packed into as few items as that allows, the widest first; unpacking gives the bytes back.
-/

namespace AsmTranslit

-- Powers are those of the core library, whichever other ones are in scope.
attribute [local instance (high)] instPowNat

inductive DataWidth
  | one
  | two
  | four
  | eight
  deriving DecidableEq, Repr

def DataWidth.bytes : DataWidth → Nat
  | one => 1
  | two => 2
  | four => 4
  | eight => 8

def DataWidth.bits (width : DataWidth) : Nat :=
  8 * width.bytes

/-- The widest item that a list of bytes fills; the empty list is given the narrowest. -/
def DataWidth.filledBy (bytes : List UInt8) : DataWidth :=
  if !(bytes.drop 7).isEmpty then eight
  else if !(bytes.drop 3).isEmpty then four
  else if !(bytes.drop 1).isEmpty then two
  else one

structure DataItem where
  width : DataWidth
  value : BitVec width.bits
  deriving DecidableEq, Repr

namespace DataItem

def bytes (item : DataItem) : List UInt8 :=
  (List.range item.width.bytes).map fun i => UInt8.ofNat (item.value.toNat / 256 ^ i)

def ofBytes (width : DataWidth) (bytes : List UInt8) : DataItem :=
  ⟨width, BitVec.ofNat width.bits (bytes.foldr (fun byte n => byte.toNat + 256 * n) 0)⟩

/-- The item that holds an integer, if the integer is in the signed or the unsigned range of its
width; negative ones are written in two's complement. -/
def ofInt? (width : DataWidth) (n : Int) : Option DataItem :=
  if -(2 ^ (width.bits - 1)) ≤ n ∧ n < 2 ^ width.bits then some ⟨width, BitVec.ofInt width.bits n⟩
  else none

def pack : List UInt8 → List DataItem
  | [] => []
  | byte :: bytes =>
    let width := DataWidth.filledBy (byte :: bytes)
    ofBytes width ((byte :: bytes).take width.bytes) :: pack ((byte :: bytes).drop width.bytes)
termination_by bytes => bytes.length
decreasing_by
  have : 0 < (DataWidth.filledBy (byte :: bytes)).bytes := by
    cases DataWidth.filledBy (byte :: bytes) <;> decide
  simp only [List.length_drop, List.length_cons]
  omega

@[simp] theorem length_bytes (item : DataItem) : item.bytes.length = item.width.bytes := by
  simp [bytes]

end DataItem

theorem DataWidth.bytes_filledBy_le {bytes : List UInt8} (h : bytes ≠ []) :
    (filledBy bytes).bytes ≤ bytes.length := by
  have pos := List.length_pos_iff.2 h
  have longer (k : Nat) : (!(bytes.drop k).isEmpty) = true ↔ k < bytes.length := by
    simp [List.isEmpty_eq_false_iff]
  simp only [filledBy, longer]
  split
  · exact ‹7 < bytes.length›
  split
  · exact ‹3 < bytes.length›
  split
  · exact ‹1 < bytes.length›
  · exact pos

end AsmTranslit
