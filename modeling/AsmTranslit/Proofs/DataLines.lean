import AsmTranslit.GoLine
import AsmTranslit.Proofs.DataBytes
import AsmTranslit.Proofs.GoAddressText
import Mathlib.Data.List.Basic

/-!
# Reading data lines

A line of data names a symbol and an offset, and gives a constant of some width; its bytes stand there
the least significant first.  The reader of such lines knows nothing of how they are written out.  The
lines of a table, read back, put every byte of the table's image in its place, each byte once, and
nothing anywhere else.
-/

namespace AsmTranslit

theorem digitValue?_digitChar {d : Nat} (h : d < 16) : digitValue? d.digitChar = some d := by
  have all : ∀ d : Fin 16, digitValue? d.val.digitChar = some d.val := by decide
  exact all ⟨d, h⟩

theorem isDigitOf_sixteen_digitChar {d : Nat} (h : d < 16) : isDigitOf 16 d.digitChar = true := by
  simpa [isDigitOf, digitValue?_digitChar h] using h

private theorem isDigitOf_of_mem_toDigits {c : Char} {n : Nat} (h : c ∈ Nat.toDigits 16 n) :
    isDigitOf 16 c = true := by
  induction n using Nat.strongRecOn with
  | ind n ih =>
    by_cases small : n < 16
    · rw [Nat.toDigits_of_lt_base small] at h
      obtain rfl := List.mem_singleton.1 h
      exact isDigitOf_sixteen_digitChar small
    · rw [Nat.toDigits_of_base_le (by decide) (Nat.le_of_not_lt small)] at h
      obtain front | last := List.mem_append.1 h
      · exact ih (n / 16) (by omega) front
      · obtain rfl := List.mem_singleton.1 last
        exact isDigitOf_sixteen_digitChar (Nat.mod_lt n (by decide))

private theorem numeralValue_toDigits (n : Nat) : numeralValue 16 (Nat.toDigits 16 n) = n := by
  induction n using Nat.strongRecOn with
  | ind n ih =>
    by_cases small : n < 16
    · rw [Nat.toDigits_of_lt_base small]
      simp [numeralValue, digitValue?_digitChar small]
    · rw [Nat.toDigits_of_base_le (by decide) (Nat.le_of_not_lt small), numeralValue_concat,
        ih (n / 16) (by omega), digitValue?_digitChar (Nat.mod_lt n (by decide)), Option.getD_some]
      omega

private theorem numeralValue_replicate_append (count : Nat) (cs : List Char) :
    numeralValue 16 (List.replicate count '0' ++ cs) = numeralValue 16 cs := by
  induction count with
  | zero => rfl
  | succ count ih => 
    rw [← ih]
    rfl

theorem isDigitOf_of_mem_hexDigits {c : Char} {places n : Nat} (h : c ∈ (hexDigits places n).toList) :
    isDigitOf 16 c = true := by
  rw [hexDigits, String.toList_ofList, List.leftpad] at h
  obtain zero | digit := List.mem_append.1 h
  · obtain rfl := List.eq_of_mem_replicate zero
    decide
  · exact isDigitOf_of_mem_toDigits digit

theorem readNumeral?_hexDigits (places n : Nat) :
    readNumeral? 16 (hexDigits places n).toList = some n := by
  have all : (hexDigits places n).toList.all (isDigitOf 16) = true :=
    List.all_eq_true.2 fun c hc => isDigitOf_of_mem_hexDigits hc
  have some : (hexDigits places n).toList.isEmpty = false := by
    simp [hexDigits, List.leftpad, Nat.toDigits_ne_nil]
  have value : numeralValue 16 (hexDigits places n).toList = n := by
    rw [hexDigits, String.toList_ofList, List.leftpad, numeralValue_replicate_append,
      numeralValue_toDigits]
  simp [readNumeral?, all, some, value]

structure DataLine where
  symbol : String
  offset : Nat
  width : Nat
  value : Nat
  deriving DecidableEq, Repr

/-- The run of characters in front of a mark, and the text behind the mark. -/
def upTo? (p : Char → Bool) (mark : String) (cs : List Char) : Option (List Char × List Char) :=
  (mark.toList.isPrefixOf? (cs.dropWhile p)).map fun rest => (cs.takeWhile p, rest)

/-- The line of data that a text is, if it is one. -/
def DataLine.ofText? (text : String) : Option DataLine := do
  let rest ← "DATA ".toList.isPrefixOf? text.toList
  let (symbol, rest) ← upTo? (· != '+') "+0x" rest
  let (offset, rest) ← upTo? (isDigitOf 16) "(SB)/" rest
  let (width, value) ← upTo? Char.isDigit ", $0x" rest
  return ⟨String.ofList symbol, ← readNumeral? 16 offset, ← readNumeral? 10 width,
    ← readNumeral? 16 value⟩

example : DataLine.ofText? "DATA x<>+0x010(SB)/2, $0x00ff" = some ⟨"x<>", 16, 2, 255⟩ := by
  decide +kernel

theorem upTo?_append {p : Char → Bool} {cs : List Char} (mark : String)
    (run : ∀ c ∈ cs, p c = true) (stop : mark.toList.head?.any (!p ·) = true) (rest : List Char) :
    upTo? p mark (cs ++ (mark.toList ++ rest)) = some (cs, rest) := by
  obtain ⟨first, start, ends⟩ := (Option.any_eq_true _ _).1 stop
  obtain ⟨others, split⟩ := List.head?_eq_some_iff.1 start
  have behind : mark.toList.isPrefixOf? (mark.toList ++ rest) = some rest :=
    List.isPrefixOf?_eq_some_iff_append_eq.2 rfl
  have kept : (mark.toList ++ rest).dropWhile p = mark.toList ++ rest ∧
      (mark.toList ++ rest).takeWhile p = [] := by
    rw [split]
    simp_all
  rw [upTo?, List.dropWhile_append_of_pos run, List.takeWhile_append_of_pos run, kept.1, kept.2, behind,
    Option.map_some, List.append_nil]

private theorem DataLine.ofText?_datum (label : String) (offset : Nat) (item : DataItem) :
    ofText? (GoLine.datum (goSymbol label) offset item).text =
      some ⟨goSymbol label, offset, item.width.bytes, item.value.toNat⟩ := by
  obtain ⟨cs, symbol, letters⟩ := toList_goSymbol label
  have noPlus : ∀ c ∈ (goSymbol label).toList, (c != '+') = true := by
    intro c member
    rw [bne_iff_ne]
    rintro rfl
    rw [symbol] at member
    obtain inName | suffix := List.mem_append.1 member
    · exact absurd (letters '+' inName) (by decide)
    · simp at suffix
  have digits : ∀ c ∈ (hexDigits 3 offset).toList, isDigitOf 16 c = true :=
    fun _ => isDigitOf_of_mem_hexDigits
  have width : (toString item.width.bytes).toList = Nat.toDigits 10 item.width.bytes := by
    rw [Nat.toString_eq_ofList_toDigits, String.toList_ofList]
  have decimals : ∀ c ∈ Nat.toDigits 10 item.width.bytes, c.isDigit = true := fun _ =>
    isDigit_of_mem_toDigits
  have text : (GoLine.datum (goSymbol label) offset item).text.toList =
      "DATA ".toList ++ ((goSymbol label).toList ++ ("+0x".toList ++ ((hexDigits 3 offset).toList ++
        ("(SB)/".toList ++ (Nat.toDigits 10 item.width.bytes ++ (", $0x".toList ++
          (hexDigits (2 * item.width.bytes) item.value.toNat).toList)))))) := by
    simp only [GoLine.text, String.toList_append, List.append_assoc, width]
  have behind (rest : List Char) : "DATA ".toList.isPrefixOf? ("DATA ".toList ++ rest) = some rest :=
    List.isPrefixOf?_eq_some_iff_append_eq.2 rfl
  simp only [ofText?, text, behind, upTo?_append "+0x" noPlus (by decide),
    upTo?_append "(SB)/" digits (by decide),
    upTo?_append ", $0x" decimals (by decide), readNumeral?_hexDigits, readNumeral?_toDigits,
    String.ofList_toList, Option.bind_eq_bind, Option.bind_some]
  rfl

/-- The byte that a line of data puts at an address of its table, if it puts one there. -/
def DataLine.byte? (line : DataLine) (address : Nat) : Option UInt8 :=
  if line.offset ≤ address then (littleEndian line.width line.value)[address - line.offset]?
  else none

def bytesAt (lines : List DataLine) (address : Nat) : List UInt8 :=
  lines.filterMap (DataLine.byte? · address)

/-- The line of data that a line of output is, by its text alone. -/
def GoLine.data? (line : GoLine) : Option DataLine :=
  DataLine.ofText? line.text

def DataTable.dataLines (table : DataTable) : List DataLine :=
  table.lines.filterMap GoLine.data?

def itemLines (symbol : String) (offset : Nat) : List DataItem → List DataLine
  | [] => []
  | item :: items =>
    ⟨symbol, offset, item.width.bytes, item.value.toNat⟩ ::
      itemLines symbol (offset + item.width.bytes) items

private theorem filterMap_data?_datumLines (label : String) (offset : Nat) (items : List DataItem) :
    (datumLines (goSymbol label) offset items).filterMap GoLine.data? =
      itemLines (goSymbol label) offset items := by
  induction items generalizing offset with
  | nil => rfl
  | cons item items ih =>
    have first : (GoLine.datum (goSymbol label) offset item).data? = _ :=
      DataLine.ofText?_datum label offset item
    rw [datumLines, List.filterMap_cons_some first, ih, itemLines]

theorem dataLines_eq_itemLines (table : DataTable) :
    table.dataLines = itemLines table.symbol 0 table.items := by
  have last : (GoLine.global table.symbol table.size).data? = none := by
    have noData : "DATA ".toList.isPrefixOf? (GoLine.global table.symbol table.size).text.toList =
        none := by
      simp [GoLine.text, List.isPrefixOf?]
    rw [GoLine.data?, DataLine.ofText?, noData]
    rfl
  rw [DataTable.dataLines, DataTable.lines, List.filterMap_append, List.filterMap_cons_none last,
    List.filterMap_nil, List.append_nil, DataTable.symbol, filterMap_data?_datumLines]

theorem symbol_of_mem_itemLines {symbol : String} {offset : Nat} {items : List DataItem}
    {line : DataLine} (member : line ∈ itemLines symbol offset items) : line.symbol = symbol := by
  induction items generalizing offset with
  | nil => simp [itemLines] at member
  | cons item items ih =>
    obtain rfl | later := List.mem_cons.1 member
    · rfl
    · exact ih later

private theorem bytesAt_itemLines (symbol : String) (offset : Nat) (items : List DataItem)
    (address : Nat) : bytesAt (itemLines symbol offset items) address =
      if offset ≤ address then ((items.flatMap DataItem.bytes)[address - offset]?).toList else [] := by
  induction items generalizing offset with
  | nil => simp [itemLines, bytesAt]
  | cons item items ih =>
    have first : DataLine.byte? ⟨symbol, offset, item.width.bytes, item.value.toNat⟩ address =
        if offset ≤ address then item.bytes[address - offset]? else none := by
      rw [DataLine.byte?, item.bytes_eq_littleEndian]
    have split : bytesAt (itemLines symbol offset (item :: items)) address =
        (if offset ≤ address then item.bytes[address - offset]? else none).toList ++
          bytesAt (itemLines symbol (offset + item.width.bytes) items) address := by
      rw [itemLines, bytesAt, List.filterMap_cons, first]
      cases (if offset ≤ address then item.bytes[address - offset]? else none) <;> rfl
    rw [split, ih, List.flatMap_cons, List.getElem?_append, DataItem.length_bytes]
    -- the address is in front of the first item, in it, or behind it
    by_cases before : offset ≤ address
    · by_cases inside : address - offset < item.width.bytes
      · have past : ¬ offset + item.width.bytes ≤ address := by omega
        rw [if_pos before, if_pos before, if_pos inside, if_neg past, List.append_nil]
      · have past : offset + item.width.bytes ≤ address := by omega
        have beyond : item.bytes[address - offset]? = none :=
          List.getElem?_eq_none (by rw [DataItem.length_bytes]; omega)
        rw [if_pos before, if_pos before, if_neg inside, if_pos past, beyond, Nat.sub_add_eq]
        rfl
    · have past : ¬ offset + item.width.bytes ≤ address := by omega
      rw [if_neg before, if_neg before, if_neg past]
      rfl

/-- The lines of a table put its bytes in their places, and nothing anywhere else. -/
theorem bytesAt_dataLines (table : DataTable) (address : Nat) :
    bytesAt table.dataLines address = table.bytes[address]?.toList := by
  rw [dataLines_eq_itemLines, bytesAt_itemLines, if_pos (Nat.zero_le address), Nat.sub_zero]
  rfl

end AsmTranslit
