import AsmTranslit.CommaList
import AsmTranslit.GoOperand
import AsmTranslit.Proofs.DecimalNumerals
import Mathlib.Algebra.Group.Nat.Defs

/-!
# Reading addresses in Go syntax

An address of the Go assembler is a text in front of one or two pairs of parentheses.  A first pair
with `SB` makes the text in front a symbol with an offset; otherwise that text is a displacement, and
the first pair holds a base register or an index with its scale.  The reader knows nothing of how an
address is written out, and gives back every address whose registers are 64 bits wide.
-/

namespace AsmTranslit

def GoRegister.all : List GoRegister :=
  (List.finRange 16).map general ++ (List.finRange 16).map lowByte ++
    (List.finRange 4).map highByte ++
    [VectorWidth.xmm, .ymm, .zmm].flatMap (fun width => (List.finRange 32).map (vector width)) ++
    (List.finRange 8).map mask ++ (List.finRange 6).map segment

def GoRegister.ofName? (name : List Char) : Option GoRegister :=
  all.find? fun r => r.name.toList == name

def Scale.ofText? : List Char → Option Scale
  | ['1'] => some one
  | ['2'] => some two
  | ['4'] => some four
  | ['8'] => some eight
  | _ => none

/-- The 64-bit word of a signed decimal number in the range of such words. -/
def readSigned? (cs : List Char) : Option Int64 :=
  match cs with
  | '-' :: digits => (readNumeral? 10 digits).bind fun n =>
      if n ≤ 2 ^ 63 then some (Int64.ofInt (-n)) else none
  | '+' :: digits => (readNumeral? 10 digits).bind fun n =>
      if n < 2 ^ 63 then some (Int64.ofInt n) else none
  | digits => (readNumeral? 10 digits).bind fun n =>
      if n < 2 ^ 63 then some (Int64.ofInt n) else none

def readOffset? (cs : List Char) : Option Int64 :=
  if cs.isEmpty then some 0 else readSigned? cs

/-- The content of a pair of parentheses, whose opening one has been taken away. -/
def parenthesised? (cs : List Char) : Option (List Char) :=
  match cs.reverse with
  | ')' :: content => some content.reverse
  | _ => none

def readScaled? (cs : List Char) : Option (GoRegister × Scale) :=
  match pieces (fun _ _ => ()) (fun _ c => c == '*') () cs with
  | [name, factor] => do return (← GoRegister.ofName? name, ← Scale.ofText? factor)
  | _ => none

/-- The index in the pairs of parentheses that are left. -/
def readIndex? : List (List Char) → Option (Option (GoRegister × Scale))
  | [] => some none
  | [group] => (readScaled? group).map some
  | _ => none

/-- The address with the given text in front of its pairs of parentheses. -/
def readAddressParts? (front : List Char) : List (List Char) → Option GoAddress
  | [] => none
  | first :: rest =>
    if first = ['S', 'B'] then do
      let symbol := front.takeWhile (· != '>') ++ ['>']
      let offset ← readOffset? ((front.dropWhile (· != '>')).drop 1)
      return .symbolic (String.ofList symbol) offset (← readIndex? rest)
    else
      match readScaled? first, rest with
      | some (r, scale), [] => do return .indexed (← readOffset? front) r scale
      | some _, _ => none
      | none, _ => do
        return .based (← readOffset? front) (← GoRegister.ofName? first) (← readIndex? rest)

/-- The address that a text denotes. -/
def GoAddress.ofText? (text : String) : Option GoAddress :=
  match pieces (fun _ _ => ()) (fun _ c => c == '(') () text.toList with
  | [] => none
  | front :: groups => (groups.mapM parenthesised?).bind (readAddressParts? front)

example :
    GoAddress.ofText? "x<>-8(SB)(CX*4)" = some (.symbolic "x<>" (-8) (some (.general 1, .four))) := by
  decide +kernel

theorem toList_decimal (n : Int64) :
    (decimal n).toList =
      if 0 ≤ n.toInt then Nat.toDigits 10 n.toInt.toNat
      else '-' :: Nat.toDigits 10 (-n.toInt).toNat := by
  rw [decimal, Int.toString_eq_repr, Int.repr_eq_if]
  split
  · simp
  · simp

private theorem readSigned?_toDigits {n : Nat} (h : n < 2 ^ 63) :
    readSigned? (Nat.toDigits 10 n) = some (Int64.ofInt n) := by
  have digits : ∀ c ∈ Nat.toDigits 10 n, c.isDigit = true := fun c hc =>
    isDigit_of_mem_toDigits hc
  have value := readNumeral?_toDigits n
  unfold readSigned?
  split
  · next rest equal =>
    have minus := digits '-' (by simp [equal])
    cases minus
  · next rest equal =>
    have plus := digits '+' (by simp [equal])
    cases plus
  · rw [value, Option.bind_some, if_pos h]

theorem readSigned?_decimal (n : Int64) : readSigned? (decimal n).toList = some n := by
  have least := n.le_toInt
  have greatest := n.toInt_lt
  rw [toList_decimal]
  split
  · next nonneg =>
    obtain ⟨k, magnitude⟩ := Int.eq_ofNat_of_zero_le nonneg
    rw [magnitude, Int.toNat_natCast, readSigned?_toDigits (by omega), ← magnitude,
      Int64.ofInt_toInt]
  · next negative =>
    obtain ⟨k, magnitude⟩ := Int.eq_ofNat_of_zero_le (show 0 ≤ -n.toInt by omega)
    have value : -(k : Int) = n.toInt := by omega
    have bound : k ≤ 2 ^ 63 := by omega
    rw [magnitude, Int.toNat_natCast, readSigned?, readNumeral?_toDigits, Option.bind_some,
      if_pos bound, value, Int64.ofInt_toInt]

private theorem readSigned?_signedDecimal (n : Int64) :
    readSigned? (signedDecimal n).toList = some n := by
  rw [signedDecimal]
  split
  · next nonneg =>
    have nonneg : 0 ≤ n.toInt := by simpa [Int64.le_iff_toInt_le] using nonneg
    have greatest := n.toInt_lt
    obtain ⟨k, magnitude⟩ := Int.eq_ofNat_of_zero_le nonneg
    have bound : k < 2 ^ 63 := by omega
    rw [String.toList_append, toList_decimal, if_pos nonneg, magnitude, Int.toNat_natCast]
    show readSigned? ('+' :: Nat.toDigits 10 k) = some n
    rw [readSigned?, readNumeral?_toDigits, Option.bind_some, if_pos bound, ← magnitude,
      Int64.ofInt_toInt]
  · exact readSigned?_decimal n

theorem decimal_ne_parenthesis (n : Int64) : ∀ c ∈ (decimal n).toList, c ≠ '(' := by
  intro c hc
  rw [toList_decimal] at hc
  have digit {k : Nat} (h : c ∈ Nat.toDigits 10 k) : c ≠ '(' := by
    rintro rfl
    cases isDigit_of_mem_toDigits h
  split at hc
  · exact digit hc
  · rcases List.mem_cons.1 hc with rfl | hc
    · decide
    · exact digit hc

private theorem signedDecimal_ne_parenthesis (n : Int64) : ∀ c ∈ (signedDecimal n).toList, c ≠ '(' := by
  intro c hc
  rw [signedDecimal] at hc
  split at hc
  · rw [String.toList_append] at hc
    rcases List.mem_append.1 hc with hc | hc
    · obtain rfl : c = '+' := by simpa using hc
      decide
    · exact decimal_ne_parenthesis n c hc
  · exact decimal_ne_parenthesis n c hc

@[simp] theorem GoRegister.ofName?_general (n : Fin 16) :
    ofName? (general n).name.toList = some (general n) := by
  revert n
  decide +kernel

theorem GoRegister.name_general_chars (n : Fin 16) :
    ∀ c ∈ (general n).name.toList, c ≠ '*' ∧ c ≠ '(' := by
  have all : ∀ n : Fin 16, (general n).name.toList.all fun c => c != '*' && c != '(' := by
    decide +kernel
  intro c member
  simpa using List.all_eq_true.1 (all n) c member

private theorem GoRegister.name_general_ne (n : Fin 16) : (general n).name.toList ≠ ['S', 'B'] := by
  revert n
  decide +kernel

private theorem Scale.ofText?_factor (scale : Scale) :
    ofText? (toString scale.factor).toList = some scale := by
  cases scale <;> rfl

theorem Scale.factor_chars (scale : Scale) :
    ∀ c ∈ (toString scale.factor).toList, c ≠ '*' ∧ c ≠ '(' := by
  have all : (toString scale.factor).toList.all fun c => c != '*' && c != '(' := by
    cases scale <;> rfl
  intro c member
  simpa using List.all_eq_true.1 all c member

def scaledText (r : GoRegister) (scale : Scale) : List Char :=
  r.name.toList ++ '*' :: (toString scale.factor).toList

theorem readScaled?_scaledText (n : Fin 16) (scale : Scale) :
    readScaled? (scaledText (.general n) scale) = some (.general n, scale) := by
  have name := GoRegister.name_general_chars n
  have factor := scale.factor_chars
  have cut : pieces (fun _ _ => ()) (fun _ c => c == '*') () (scaledText (.general n) scale) =
      [(GoRegister.general n).name.toList, (toString scale.factor).toList] := by
    rw [scaledText, pieces_append_cons _ (fun c hc => by simpa using (name c hc).1) rfl,
      pieces_of_forall fun c hc => by simpa using (factor c hc).1]
  simp only [readScaled?, cut, GoRegister.ofName?_general, scale.ofText?_factor]
  rfl

/-- A base register is no index. -/
theorem readScaled?_name (n : Fin 16) :
    readScaled? (GoRegister.general n).name.toList = none := by
  have name := GoRegister.name_general_chars n
  rw [readScaled?, pieces_of_forall fun c hc => by simpa using (name c hc).1]

def inParentheses (cs : List Char) : List Char :=
  '(' :: (cs ++ [')'])

private theorem pieces_inParentheses {front : List Char} {groups : List (List Char)}
    (before : ∀ c ∈ front, c ≠ '(') (inside : ∀ g ∈ groups, ∀ c ∈ g, c ≠ '(') :
    pieces (fun _ _ => ()) (fun _ c => c == '(') () (front ++ groups.flatMap inParentheses) =
      front :: groups.map (· ++ [')']) := by
  induction groups generalizing front with
  | nil =>
    rw [List.flatMap_nil, List.append_nil, pieces_of_forall fun c hc => by simpa using before c hc]
    rfl
  | cons g groups ih =>
    have closed : ∀ c ∈ g ++ [')'], c ≠ '(' := by
      intro c hc
      rcases List.mem_append.1 hc with hc | hc
      · exact inside g (by simp) c hc
      · obtain rfl : c = ')' := by simpa using hc
        decide
    have later := ih closed fun g' hg' => inside g' (by simp [hg'])
    rw [List.flatMap_cons, inParentheses, List.cons_append,
      pieces_append_cons _ (fun c hc => by simpa using before c hc) rfl, later]
    rfl

private theorem mapM_parenthesised? (groups : List (List Char)) :
    (groups.map (· ++ [')'])).mapM parenthesised? = some groups := by
  induction groups with
  | nil => rfl
  | cons g groups ih => simp [parenthesised?, ih]

/-- The reader takes a text apart where it was put together. -/
theorem GoAddress.ofText?_of_toList {text : String} {front : List Char} {groups : List (List Char)}
    (h : text.toList = front ++ groups.flatMap inParentheses) (before : ∀ c ∈ front, c ≠ '(')
    (inside : ∀ g ∈ groups, ∀ c ∈ g, c ≠ '(') :
    GoAddress.ofText? text = readAddressParts? front groups := by
  rw [ofText?, h, pieces_inParentheses before inside]
  simp only [mapM_parenthesised?, Option.bind_some]

def indexGroups : Option (GoRegister × Scale) → List (List Char)
  | none => []
  | some (r, scale) => [scaledText r scale]

theorem toList_indexText (index : Option (GoRegister × Scale)) :
    (indexText index).toList = (indexGroups index).flatMap inParentheses := by
  cases index with
  | none => rfl
  | some entry => simp [indexText, indexGroups, inParentheses, scaledText]

namespace GoAddress

def registers : GoAddress → List GoRegister
  | based _ base index => base :: (index.map Prod.fst).toList
  | indexed _ index _ => [index]
  | symbolic _ _ index => (index.map Prod.fst).toList

def symbol? : GoAddress → Option String
  | symbolic symbol _ _ => some symbol
  | _ => none

end GoAddress

/-- An index whose register is 64 bits wide. -/
def WideIndex (index : Option (GoRegister × Scale)) : Prop :=
  ∀ r ∈ (index.map Prod.fst).toList, ∃ n, r = GoRegister.general n

theorem readIndex?_indexGroups {index : Option (GoRegister × Scale)} (wide : WideIndex index) :
    readIndex? (indexGroups index) = some index := by
  cases index with
  | none => rfl
  | some entry =>
    obtain ⟨r, scale⟩ := entry
    obtain ⟨n, rfl⟩ := wide r (by simp)
    simp [indexGroups, readIndex?, readScaled?_scaledText]

theorem indexGroups_chars {index : Option (GoRegister × Scale)} (wide : WideIndex index) :
    ∀ g ∈ indexGroups index, ∀ c ∈ g, c ≠ '(' := by
  intro g hg c hc
  cases index with
  | none => cases hg
  | some entry =>
    obtain ⟨r, scale⟩ := entry
    obtain ⟨n, rfl⟩ := wide r (by simp)
    obtain rfl : g = scaledText (.general n) scale := by simpa [indexGroups] using hg
    rcases List.mem_append.1 hc with hc | hc
    · exact (GoRegister.name_general_chars n c hc).2
    · rcases List.mem_cons.1 hc with rfl | hc
      · decide
      · exact (scale.factor_chars c hc).2

/-- The text in front of the suffix of a Go symbol has letters, digits and underscores only. -/
theorem toList_goSymbol (label : String) :
    ∃ cs, (goSymbol label).toList = cs ++ ['<', '>'] ∧ ∀ c ∈ cs, c.isAlphanum ∨ c = '_' := by
  refine ⟨(label.toList.dropWhile (· == '.')).map goSymbolChar, by simp [goSymbol], ?_⟩
  intro c hc
  obtain ⟨d, -, rfl⟩ := List.mem_map.1 hc
  rw [goSymbolChar]
  split
  · next accepted => simpa using accepted
  · exact .inr rfl

theorem readOffset?_of_readSigned? {text : String} {n : Int64}
    (h : readSigned? text.toList = some n) : readOffset? text.toList = some n := by
  have some : text.toList ≠ [] := by
    intro none
    rw [none] at h
    cases h
  simp [readOffset?, h, some]

theorem readOffset?_ite {text : String} {n : Int64} (h : readSigned? text.toList = some n) :
    readOffset? (if n = 0 then "" else text).toList = some n := by
  split
  · next zero => rw [zero]; rfl
  · exact readOffset?_of_readSigned? h

private theorem ofText?_based {displacement : Int64} {n : Fin 16} {index : Option (GoRegister × Scale)}
    (wide : WideIndex index) :
    GoAddress.ofText? (GoAddress.based displacement (.general n) index).text =
      some (.based displacement (.general n) index) := by
  have text : (GoAddress.based displacement (.general n) index).text.toList =
      (if displacement = 0 then "" else decimal displacement).toList ++
        ((GoRegister.general n).name.toList :: indexGroups index).flatMap inParentheses := by
    simp [GoAddress.text, toList_indexText, inParentheses]
  rw [GoAddress.ofText?_of_toList text]
  · simp [readAddressParts?, GoRegister.name_general_ne, readScaled?_name,
      readOffset?_ite (readSigned?_decimal displacement), readIndex?_indexGroups wide]
  · split
    · simp
    · exact decimal_ne_parenthesis displacement
  · rintro g hg c hc
    rcases List.mem_cons.1 hg with rfl | hg
    · exact (GoRegister.name_general_chars n c hc).2
    · exact indexGroups_chars wide g hg c hc

private theorem ofText?_indexed {displacement : Int64} {n : Fin 16} {scale : Scale} :
    GoAddress.ofText? (GoAddress.indexed displacement (.general n) scale).text =
      some (.indexed displacement (.general n) scale) := by
  have wide : WideIndex (some (.general n, scale)) := by simp [WideIndex]
  have text : (GoAddress.indexed displacement (.general n) scale).text.toList =
      (decimal displacement).toList ++
        (indexGroups (some (.general n, scale))).flatMap inParentheses := by
    simp [GoAddress.text, toList_indexText]
  have notSymbol : scaledText (.general n) scale ≠ ['S', 'B'] := by
    intro equal
    have asterisk : '*' ∈ scaledText (.general n) scale := by simp [scaledText]
    simp [equal] at asterisk
  have read := readOffset?_of_readSigned? (readSigned?_decimal displacement)
  rw [GoAddress.ofText?_of_toList text (decimal_ne_parenthesis displacement) (indexGroups_chars wide)]
  simp [readAddressParts?, indexGroups, notSymbol, readScaled?_scaledText, read]

private theorem ofText?_symbolic {label : String} {offset : Int64} {index : Option (GoRegister × Scale)}
    (wide : WideIndex index) :
    GoAddress.ofText? (GoAddress.symbolic (goSymbol label) offset index).text =
      some (.symbolic (goSymbol label) offset index) := by
  obtain ⟨cs, symbol, letters⟩ := toList_goSymbol label
  have noMark {d : Char} (mark : ¬ (d.isAlphanum = true ∨ d = '_')) : d ∉ cs := fun hd =>
    mark (letters d hd)
  have inSymbol : ∀ c ∈ cs ++ ['<'], (c != '>') = true := by
    intro c hc
    rw [bne_iff_ne]
    rintro rfl
    rcases List.mem_append.1 hc with hc | hc
    · exact noMark (by decide) hc
    · simp at hc
  have front (rest : List Char) : (goSymbol label).toList ++ rest = (cs ++ ['<']) ++ '>' :: rest := by
    simp [symbol]
  have text : (GoAddress.symbolic (goSymbol label) offset index).text.toList =
      ((goSymbol label).toList ++ (if offset = 0 then "" else signedDecimal offset).toList) ++
        (['S', 'B'] :: indexGroups index).flatMap inParentheses := by
    simp [GoAddress.text, toList_indexText, inParentheses]
  rw [GoAddress.ofText?_of_toList text]
  · have name : String.ofList (cs ++ ['<'] ++ ['>']) = goSymbol label := by
      rw [← String.toList_inj, String.toList_ofList, symbol, List.append_assoc]
      rfl
    have read := readOffset?_ite (readSigned?_signedDecimal offset)
    rw [front]
    simp only [readAddressParts?, if_true, List.takeWhile_append_of_pos inSymbol,
      List.dropWhile_append_of_pos inSymbol, List.takeWhile_cons, List.dropWhile_cons, bne_self_eq_false,
      Bool.false_eq_true, if_false, List.append_nil, name, List.drop_one, List.tail_cons, read,
      readIndex?_indexGroups wide]
    rfl
  · rintro c hc rfl
    rw [symbol] at hc
    rcases List.mem_append.1 hc with hc | hc
    · rcases List.mem_append.1 hc with hc | hc
      · exact noMark (by decide) hc
      · simp at hc
    · split at hc
      · simp at hc
      · exact signedDecimal_ne_parenthesis offset '(' hc rfl
  · rintro g hg c hc rfl
    rcases List.mem_cons.1 hg with rfl | hg
    · simp at hc
    · exact indexGroups_chars wide g hg '(' hc rfl

/-- Reading the text of an address gives the address back, if all its registers are 64 bits wide and
its symbol is that of a label. -/
theorem GoAddress.ofText?_text {a : GoAddress} (wide : ∀ r ∈ a.registers, ∃ n, r = .general n)
    (named : ∀ symbol ∈ a.symbol?, ∃ label, symbol = goSymbol label) : ofText? a.text = some a := by
  cases a with
  | based displacement base index =>
    obtain ⟨n, rfl⟩ := wide base (by simp [registers])
    exact ofText?_based fun r hr => wide r (by simp [registers, hr])
  | indexed displacement index scale =>
    obtain ⟨n, rfl⟩ := wide index (by simp [registers])
    exact ofText?_indexed
  | symbolic symbol offset index =>
    obtain ⟨label, rfl⟩ := named symbol rfl
    exact ofText?_symbolic wide

end AsmTranslit
