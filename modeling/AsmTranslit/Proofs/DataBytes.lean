import AsmTranslit.DataTable
import AsmTranslit.Proofs.CheckedRuns
import Mathlib.Tactic.Linarith
import Mathlib.Tactic.Ring

/-!
# Bytes of data

The bytes that a data directive defines, said without items and widths of packing: numbers are
little-endian in two's complement, strings and fills stand as they are.  However a table is put
together, its byte image only grows, and each directive adds exactly the bytes that it defines.
-/

namespace AsmTranslit

/-- The bytes of an integer in two's complement, the least significant first. -/
def littleEndian : Nat → Int → List UInt8
  | 0, _ => []
  | count + 1, n => UInt8.ofNat (n % 256).toNat :: littleEndian count (n / 256)

def byteValue (bytes : List UInt8) : Nat :=
  bytes.foldr (fun byte n => byte.toNat + 256 * n) 0

private theorem littleEndian_natCast (count n : Nat) :
    littleEndian count n = (List.range count).map fun i => UInt8.ofNat (n / 256 ^ i) := by
  induction count generalizing n with
  | zero => rfl
  | succ count ih =>
    have next : ((n : Int) / 256) = ((n / 256 : Nat) : Int) := by omega
    have low : UInt8.ofNat ((n : Int) % 256).toNat = UInt8.ofNat n := by
      rw [← UInt8.toNat_inj]
      simp
      omega
    rw [littleEndian, next, ih, low, List.range_succ_eq_map, List.map_cons, List.map_map]
    simp [Function.comp_def, Nat.div_div_eq_div_mul, Nat.pow_succ, Nat.mul_comm]

theorem littleEndian_add_mul (count : Nat) (n q : Int) :
    littleEndian count (n + 256 ^ count * q) = littleEndian count n := by
  induction count generalizing n with
  | zero => rfl
  | succ count ih =>
    have next : (n + 256 ^ (count + 1) * q) / 256 = n / 256 + 256 ^ count * q := by
      rw [show n + (256 : Int) ^ (count + 1) * q = n + 256 * (256 ^ count * q) by ring]
      omega
    have low : (n + 256 ^ (count + 1) * q) % 256 = n % 256 := by
      rw [show n + (256 : Int) ^ (count + 1) * q = n + 256 * (256 ^ count * q) by ring]
      omega
    rw [littleEndian, next, low, ih, littleEndian]

private theorem littleEndian_byteValue (bytes : List UInt8) :
    littleEndian bytes.length (byteValue bytes) = bytes := by
  induction bytes with
  | nil => rfl
  | cons byte bytes ih =>
    have bound := byte.toNat_lt
    have value : (byteValue (byte :: bytes) : Int) = byte.toNat + 256 * byteValue bytes := by
      simp [byteValue]
    have low : (byteValue (byte :: bytes) : Int) % 256 = byte.toNat := by omega
    have high : (byteValue (byte :: bytes) : Int) / 256 = byteValue bytes := by omega
    rw [List.length_cons, littleEndian, low, high, ih, Int.toNat_natCast, UInt8.ofNat_toNat]

namespace DataItem

theorem bytes_eq_littleEndian (item : DataItem) :
    item.bytes = littleEndian item.width.bytes item.value.toNat := by
  rw [littleEndian_natCast]
  rfl

theorem bytes_ofInt (width : DataWidth) (n : Int) :
    (⟨width, BitVec.ofInt width.bits n⟩ : DataItem).bytes = littleEndian width.bytes n := by
  have power : ((2 ^ width.bits : Nat) : Int) = 256 ^ width.bytes := by
    cases width <;> rfl
  have positive : (256 : Int) ^ width.bytes ≠ 0 := by
    cases width <;> decide
  have value : ((BitVec.ofInt width.bits n).toNat : Int) =
      n + 256 ^ width.bytes * -(n / 256 ^ width.bytes) := by
    have split := Int.emod_add_mul_ediv n (256 ^ width.bytes)
    rw [BitVec.toNat_ofInt, power, Int.toNat_of_nonneg (Int.emod_nonneg _ positive)]
    linarith
  rw [bytes_eq_littleEndian, value, littleEndian_add_mul]

private theorem bytes_ofBytes {width : DataWidth} {bytes : List UInt8} (h : bytes.length = width.bytes) :
    (ofBytes width bytes).bytes = bytes := by
  have value : (ofBytes width bytes).bytes = littleEndian width.bytes (byteValue bytes) := by
    exact bytes_ofInt width (byteValue bytes)
  rw [value, ← h, littleEndian_byteValue]

theorem flatMap_bytes_pack (bytes : List UInt8) : (pack bytes).flatMap DataItem.bytes = bytes := by
  fun_induction pack bytes with
  | case1 => rfl
  | case2 byte bytes width ih =>
    have fills : width.bytes ≤ (byte :: bytes).length :=
      DataWidth.bytes_filledBy_le (List.cons_ne_nil byte bytes)
    have first : (ofBytes width ((byte :: bytes).take width.bytes)).bytes =
        (byte :: bytes).take width.bytes :=
      bytes_ofBytes (List.length_take_of_le fills)
    rw [List.flatMap_cons, first, ih, List.take_append_drop]

end DataItem

/-- What arguments define, one after another, if each of them defines something. -/
def argumentBytes? (read : String → Option (List UInt8)) (arguments : List String) :
    Option (List UInt8) :=
  (arguments.mapM read).map List.flatten

/-- The bytes of a fill: as many as the first argument says, each the second one, which is nought if it
is left out. -/
def filledBytes? (arguments : List String) : Option (List UInt8) := do
  let count ← arguments.head?.bind readInteger?
  let byte ← (arguments[1]?.map readInteger?).getD (some 0)
  if 0 ≤ count then return (List.replicate count.toNat (littleEndian 1 byte)).flatten else none

def DataDirective.bytes? : DataDirective → List String → Option (List UInt8)
  | .integers width, arguments => argumentBytes? (fun argument =>
      (readInteger? argument).map (littleEndian width.bytes)) arguments
  | .floats single, arguments => argumentBytes? (fun argument =>
      (readFloat? argument).map fun literal =>
        if single then littleEndian 4 literal.bits32 else littleEndian 8 literal.bits64) arguments
  | .fill, arguments => filledBytes? arguments
  | .strings terminated, arguments => argumentBytes? (fun argument =>
      (readQuoted argument).toOption.map fun bytes => bytes ++ if terminated then [0] else [])
      arguments

def definedBytes? (name arguments : String) : Option (List UInt8) :=
  (DataDirective.ofName? name).bind fun directive => directive.bytes? (splitArguments arguments)

private theorem bytes_integerItem {width : DataWidth} {argument : String} {item : DataItem}
    (h : integerItem width argument = .ok item) :
    (readInteger? argument).map (littleEndian width.bytes) = some item.bytes := by
  rw [integerItem] at h
  split at h
  case h_1 => simp at h
  case h_2 n read =>
    split at h
    case h_1 => simp at h
    case h_2 item' inRange =>
      obtain rfl := Except.ok.inj h
      rw [DataItem.ofInt?, Option.ite_none_right_eq_some] at inRange
      obtain rfl := Option.some.inj inRange.2
      rw [read, Option.map_some, DataItem.bytes_ofInt]

theorem bytes_floatItem {single : Bool} {argument : String} {item : DataItem}
    (h : floatItem single argument = .ok item) :
    (readFloat? argument).map (fun literal =>
      if single then littleEndian 4 literal.bits32 else littleEndian 8 literal.bits64) =
        some item.bytes := by
  rw [floatItem] at h
  split at h
  case h_1 => simp at h
  case h_2 literal read =>
    obtain rfl := Except.ok.inj h
    rw [read, Option.map_some]
    cases single with
    | true => exact congrArg some (DataItem.bytes_ofInt .four literal.bits32).symm
    | false => exact congrArg some (DataItem.bytes_ofInt .eight literal.bits64).symm

theorem stringBytes_eq_ok {terminated : Bool} {argument : String} {bytes : List UInt8}
    (h : stringBytes terminated argument = .ok bytes) :
    (readQuoted argument).toOption.map (fun bytes => bytes ++ if terminated then [0] else []) =
      some bytes := by
  rw [stringBytes] at h
  split at h
  case h_1 => simp at h
  case h_2 body read =>
    obtain rfl := Except.ok.inj h
    cases terminated <;> simp [read, Except.toOption]

private theorem fillCount?_eq_some {arguments : List String} {count : Nat}
    (h : fillCount? arguments = some count) :
    arguments.head?.bind readInteger? = some (count : Int) := by
  rw [fillCount?] at h
  split at h
  case h_1 n read =>
    rw [Option.ite_none_right_eq_some] at h
    obtain rfl := Option.some.inj h.2
    exact read
  case h_2 => simp at h

private theorem fillByte_eq_ok {arguments : List String} {byte : UInt8}
    (h : fillByte arguments = .ok byte) :
    ∃ n, (arguments[1]?.map readInteger?).getD (some 0) = some n ∧ littleEndian 1 n = [byte] := by
  rw [fillByte] at h
  split at h
  case h_1 absent =>
    obtain rfl := Except.ok.inj h
    exact ⟨0, by rw [absent]; rfl, rfl⟩
  case h_2 argument present =>
    split at h
    case h_1 => simp at h
    case h_2 item known =>
      obtain rfl := Except.ok.inj h
      obtain ⟨n, read, inRange⟩ := Option.bind_eq_some_iff.1 known
      rw [DataItem.ofInt?, Option.ite_none_right_eq_some] at inRange
      obtain rfl := Option.some.inj inRange.2
      refine ⟨n, by rw [present, Option.map_some, Option.getD_some, read], ?_⟩
      refine (DataItem.bytes_ofInt .one n).symm.trans ?_
      simp [DataItem.bytes, DataWidth.bytes]

private theorem filledBytes?_of_fillBytes {arguments : List String} {bytes : List UInt8}
    (h : fillBytes arguments = .ok bytes) : filledBytes? arguments = some bytes := by
  rw [fillBytes] at h
  split at h
  case h_1 => simp at h
  case h_2 count known =>
    cases value : fillByte arguments with
    | error fault => simp [value, Except.map] at h
    | ok byte =>
      obtain rfl : List.replicate count byte = bytes := by simpa [value, Except.map] using h
      obtain ⟨n, read, single⟩ := fillByte_eq_ok value
      simp [filledBytes?, fillCount?_eq_some known, read, single]

theorem argumentBytes?_of_readUntilFault {α : Type} {read : String → Except DataFault α}
    {image? : String → Option (List UInt8)} {image : α → List UInt8}
    (agree : ∀ argument a, read argument = .ok a → image? argument = some (image a))
    {arguments : List String} {as : List α} (h : readUntilFault read arguments = (as, none)) :
    argumentBytes? image? arguments = some (as.flatMap image) := by
  rw [argumentBytes?]
  induction arguments generalizing as with
  | nil =>
    obtain rfl : [] = as := by simpa [readUntilFault] using h
    rfl
  | cons argument arguments ih =>
    rw [readUntilFault] at h
    split at h
    case h_1 => simp at h
    case h_2 a first =>
      obtain ⟨rfl, rest⟩ : a :: (readUntilFault read arguments).1 = as ∧
          (readUntilFault read arguments).2 = none := by simpa using h
      obtain ⟨parts, run, flat⟩ := Option.map_eq_some_iff.1 (ih (Prod.ext rfl rest))
      simp [agree argument a first, run, flat]

theorem DataItem.foldr_width_bytes (items : List DataItem) (rest : Nat) :
    items.foldr (fun item size => item.width.bytes + size) rest =
      (items.flatMap DataItem.bytes).length + rest := by
  induction items with
  | nil => simp
  | cons item items ih => simp [ih, Nat.add_assoc]

theorem DataTable.size_eq_length_bytes (table : DataTable) : table.size = table.bytes.length :=
  DataItem.foldr_width_bytes table.items 0

namespace TableBuilder

variable {builder next : TableBuilder} {bytes : List UInt8}

@[simp] theorem bytes_flush (builder : TableBuilder) : builder.flush.bytes = builder.bytes := by
  simp [flush, TableBuilder.bytes, DataItem.flatMap_bytes_pack]

@[simp] theorem bytes_appendItems (builder : TableBuilder) (items : List DataItem) :
    (builder.appendItems items).bytes = builder.bytes ++ items.flatMap DataItem.bytes := by
  simp [appendItems, flush, TableBuilder.bytes, DataItem.flatMap_bytes_pack]

@[simp] theorem bytes_appendBytes (builder : TableBuilder) (bytes : List UInt8) :
    (builder.appendBytes bytes).bytes = builder.bytes ++ bytes := by
  simp [appendBytes, TableBuilder.bytes]

theorem size_eq_length_bytes (builder : TableBuilder) : builder.size = builder.bytes.length := by
  rw [size, TableBuilder.bytes, List.length_append, ← Array.foldr_toList,
    DataItem.foldr_width_bytes]

/-- A directive without a fault adds the bytes that it defines. -/
theorem bytes_define {name arguments : String} (h : builder.define name arguments = (next, none)) :
    ∃ bytes, definedBytes? name arguments = some bytes ∧ next.bytes = builder.bytes ++ bytes := by
  rw [define] at h
  split at h
  case h_1 => simp at h
  case h_2 directive known =>
    rw [definedBytes?, known, Option.bind_some]
    cases directive with
    | integers width =>
      obtain ⟨rfl, noFault⟩ := Prod.mk.inj h
      exact ⟨_, argumentBytes?_of_readUntilFault (fun _ _ => bytes_integerItem)
        (Prod.ext rfl noFault), bytes_appendItems _ _⟩
    | floats single =>
      obtain ⟨rfl, noFault⟩ := Prod.mk.inj h
      exact ⟨_, argumentBytes?_of_readUntilFault (fun _ _ => bytes_floatItem)
        (Prod.ext rfl noFault), bytes_appendItems _ _⟩
    | fill =>
      simp only [defineAs] at h
      split at h
      case h_1 => simp at h
      case h_2 bytes filled =>
        obtain ⟨rfl, -⟩ := Prod.mk.inj h
        exact ⟨bytes, filledBytes?_of_fillBytes filled, bytes_appendBytes _ _⟩
    | strings terminated =>
      obtain ⟨rfl, noFault⟩ := Prod.mk.inj h
      refine ⟨_, argumentBytes?_of_readUntilFault (fun _ _ => stringBytes_eq_ok)
        (Prod.ext rfl noFault), ?_⟩
      rw [bytes_appendBytes, List.flatMap_id']

end TableBuilder

end AsmTranslit
