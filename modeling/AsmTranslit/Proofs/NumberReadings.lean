import AsmTranslit.IntegerLiteral
import AsmTranslit.Proofs.EffectiveAddress
import AsmTranslit.Proofs.LineContents
import AsmTranslit.Proofs.OperandDerivations
import AsmTranslit.Proofs.TokenTexts

/-!
# Readings of numbers

A number is read in two ways: through tokens where it is the operand of an instruction, and as a literal
with a radix mark where it is the argument of a data directive.  The two take the same texts apart in the
same way, sign, numeral and blanks, and agree on the numeral unless a zero stands in front of more digits.
Data then counts in base eight and operands in base ten, and what they count differs from eight on.
-/

namespace AsmTranslit

-- A statement on the members of a list is decided along the list, never over every character.
attribute [local instance (high)] List.decidableBAll

/-- A lexeme of digits, or of hexadecimal digits behind their mark. -/
inductive IsNumeral : List Char → Prop
  | decimal {cs : List Char} (some : cs ≠ []) (digits : ∀ c ∈ cs, c.isDigit) : IsNumeral cs
  | hexadecimal {x : Char} {digits : List Char} (mark : x = 'x' ∨ x = 'X')
    (isHex : ∀ c ∈ digits, isDigitOf 16 c) : IsNumeral ('0' :: x :: digits)

/-- Whether a numeral has a zero in front of more digits, which is the mark of octal numbers in data. -/
def isOctal : List Char → Bool
  | '0' :: digit :: _ => digit.isDigit
  | _ => false

def numeralOf (text : String) : List Char :=
  match trim text.toList with
  | '-' :: cs => trimStart cs
  | cs => cs

/-- The ways to write a number: a numeral, perhaps behind a minus sign, with blanks at will. -/
inductive WritesNumber : Bool → List Char → List Char → Prop
  | plain {front numeral back : List Char} (before : ∀ c ∈ front, isBlank c)
    (isNumeral : IsNumeral numeral) (behind : ∀ c ∈ back, isBlank c) :
    WritesNumber false numeral (front ++ (numeral ++ back))
  | negated {front between numeral back : List Char} (before : ∀ c ∈ front, isBlank c)
    (within : ∀ c ∈ between, isBlank c) (isNumeral : IsNumeral numeral)
    (behind : ∀ c ∈ back, isBlank c) :
    WritesNumber true numeral (front ++ '-' :: (between ++ (numeral ++ back)))

variable {c : Char} {cs numeral word front : List Char} {t : Token} {ts : List Token} {text : String}
  {negative : Bool} {n : UInt64} {m : Nat} {k : Int64}

private theorem isNumeral_lexeme (digit : c.isDigit) : IsNumeral (c :: lexemeTail c cs) := by
  have noWord : isSymbolStart c = false := (plain_of_isDigit digit).1
  have run (cs : List Char) : ∀ d ∈ c :: cs.takeWhile Char.isDigit, d.isDigit := by
    rw [List.forall_mem_cons]
    exact ⟨digit, List.all_eq_true.1 List.all_takeWhile⟩
  rw [lexemeTail, noWord, if_neg Bool.false_ne_true, if_pos digit]
  fun_cases numeralTail c cs with
  | case1 x first tail hexadecimal =>
    simp only [Bool.and_eq_true, Bool.or_eq_true, beq_iff_eq] at hexadecimal
    obtain ⟨⟨rfl, mark⟩, isHex⟩ := hexadecimal
    refine .hexadecimal mark ?_
    rw [List.forall_mem_cons]
    exact ⟨isHex, List.all_eq_true.1 List.all_takeWhile⟩
  | case2 x first tail _ => exact .decimal (List.cons_ne_nil _ _) (run _)
  | case3 => exact .decimal (List.cons_ne_nil _ _) (run _)

private theorem IsNumeral.head_isDigit (h : IsNumeral (c :: cs)) : c.isDigit := by
  cases h with
  | decimal _ digits => exact digits c List.mem_cons_self
  | hexadecimal => rfl

private theorem IsNumeral.exists_cons (h : IsNumeral numeral) : ∃ c cs, numeral = c :: cs := by
  cases h with
  | decimal some _ => exact List.exists_cons_of_ne_nil some
  | hexadecimal => exact ⟨_, _, rfl⟩

theorem IsNumeral.isBlank (h : IsNumeral numeral) : ∀ c ∈ numeral, isBlank c = false := by
  intro c member
  cases h with
  | decimal _ digits => exact isBlank_of_isSymbolChar (isSymbolChar_of_isDigit (digits c member))
  | hexadecimal mark isHex =>
    rcases List.mem_cons.1 member with rfl | member
    · decide
    rcases List.mem_cons.1 member with rfl | member
    · rcases mark with rfl | rfl <;> decide
    · exact isBlank_of_isSymbolChar (isSymbolChar_of_isDigitOf (isHex c member))

theorem eq_numeralValue_of_readNumeral? {radix : Nat} (h : readNumeral? radix cs = some m) :
    m = numeralValue radix cs ∧ ∀ c ∈ cs, isDigitOf radix c := by
  rw [readNumeral?] at h
  split at h
  case isTrue digits =>
    rw [Bool.and_eq_true, List.all_eq_true] at digits
    exact ⟨(Option.some.inj h).symm, digits.2⟩
  case isFalse => cases h

private theorem numeralValue_zero_cons (radix : Nat) (cs : List Char) :
    numeralValue radix ('0' :: cs) = numeralValue radix cs := by
  have zero : (digitValue? '0').getD 0 = 0 := by decide
  rw [numeralValue, List.foldl_cons, zero, Nat.zero_mul, Nat.add_zero]
  rfl

/-- Octal digits count for less in base eight than in base ten, unless only the last one counts. -/
theorem numeralValue_eight (digits : ∀ c ∈ cs, isDigitOf 8 c) :
    numeralValue 8 cs ≤ numeralValue 10 cs ∧
      (numeralValue 8 cs = numeralValue 10 cs ↔ numeralValue 8 cs < 8) := by
  induction cs using List.reverseRecOn with
  | nil => simp
  | append_singleton cs c ih =>
    have before := ih fun d member => digits d (List.mem_append_left _ member)
    have digit : (digitValue? c).getD 0 < 8 := by
      have last := digits c (by simp)
      rw [isDigitOf, Option.any_eq_true] at last
      obtain ⟨value, known, small⟩ := last
      rw [known, Option.getD_some]
      exact of_decide_eq_true small
    rw [numeralValue_concat, numeralValue_concat]
    omega

private theorem le_and_eq_iff_of_readMagnitude? (isNumeral : IsNumeral numeral)
    (read : readMagnitude? numeral = some m) :
    m ≤ numeralLexemeValue numeral ∧
      (m = numeralLexemeValue numeral ↔ ¬(isOctal numeral ∧ 8 ≤ m)) := by
  cases isNumeral with
  | @hexadecimal x digits mark isHex =>
    have same : readMagnitude? ('0' :: x :: digits) = readNumeral? 16 digits ∧
        numeralLexemeValue ('0' :: x :: digits) = numeralValue 16 digits ∧
        isOctal ('0' :: x :: digits) = false := by
      rcases mark with rfl | rfl <;> exact ⟨rfl, rfl, rfl⟩
    obtain ⟨magnitude, value, noOctal⟩ := same
    rw [magnitude] at read
    obtain ⟨rfl, -⟩ := eq_numeralValue_of_readNumeral? read
    simp [value, noOctal]
  | decimal some digits =>
    rw [numeralLexemeValue_digits digits]
    revert read
    have noMark (x : Char) (member : x ∈ numeral) : x ≠ 'x' ∧ x ≠ 'X' ∧ x ≠ 'b' ∧ x ≠ 'B' := by
      have digit := digits x member
      refine ⟨?_, ?_, ?_, ?_⟩ <;> rintro rfl <;> cases digit
    fun_cases readMagnitude? numeral with
    | case1 => exact absurd rfl (noMark 'x' (by simp)).1
    | case2 => exact absurd rfl (noMark 'X' (by simp)).2.1
    | case3 => exact absurd rfl (noMark 'b' (by simp)).2.2.1
    | case4 => exact absurd rfl (noMark 'B' (by simp)).2.2.2
    | case5 digit tail =>
      intro read
      obtain ⟨rfl, octal⟩ := eq_numeralValue_of_readNumeral? read
      have isOctal : isOctal ('0' :: digit :: tail) := digits digit (by simp)
      have compared := numeralValue_eight octal
      simp only [numeralValue_zero_cons, isOctal, true_and]
      omega
    | case6 _ _ _ _ _ noMore =>
      intro read
      obtain ⟨rfl, -⟩ := eq_numeralValue_of_readNumeral? read
      have noOctal : isOctal numeral = false := by
        fun_cases isOctal numeral with
        | case1 digit tail => exact absurd rfl (noMore digit tail)
        | case2 => rfl
      simp [noOctal]

private theorem Token.ofWord_ne_number (word : String) (n : UInt64) : ofWord word ≠ .number n := by
  fun_cases ofWord word with
  | _ => simp

private theorem Token.ofLexeme_eq_number {tail : List Char} (h : ofLexeme c tail = .number n) :
    c.isDigit ∧ numeralLexemeValue (c :: tail) = n.toNat := by
  rw [ofLexeme] at h
  split at h
  case isTrue => exact absurd h (ofWord_ne_number _ n)
  case isFalse =>
    split at h
    case isTrue digit =>
      simp only [ofNumeral] at h
      split at h
      case isTrue small =>
        obtain rfl := Token.number.inj h
        exact ⟨digit, (UInt64.toNat_ofNat_of_lt' small).symm⟩
      case isFalse => cases h
    case isFalse =>
      rw [ofMark.eq_def] at h
      split at h <;> cases h

theorem exists_number_of_scanTokens (h : scanTokens cs = [.number n]) :
    ∃ front numeral back, cs = front ++ (numeral ++ back) ∧ (∀ c ∈ front, isBlank c) ∧
      IsNumeral numeral ∧ (∀ c ∈ back, isBlank c) ∧ numeralLexemeValue numeral = n.toNat := by
  obtain ⟨front, c, rest, before, rfl, token, behind⟩ := exists_lexeme_of_scanTokens h
  obtain ⟨digit, value⟩ := Token.ofLexeme_eq_number token
  refine ⟨front, c :: lexemeTail c rest, rest.drop (lexemeTail c rest).length, ?_, before,
    isNumeral_lexeme digit, ?_, value⟩
  · rw [List.cons_append, lexemeTail_append_drop]
  · exact isBlank_of_scanFrom_eq_nil (List.map_eq_nil_iff.1 behind)

private theorem exists_writesNumber (reads : readOperand text = .ok (.immediate k)) :
    ∃ negative numeral n, WritesNumber negative numeral text.toList ∧
      numeralLexemeValue numeral = n.toNat ∧ k = signedWord negative n := by
  obtain ⟨-, -, ⟨-, form, m, -, -, same⟩ | ⟨-, plain⟩⟩ := readTokens_eq_ok_iff.1 reads
  · cases same
  obtain ⟨tree, yields, denotes⟩ := readPlain_eq_ok_iff.1 plain
  cases tree with
  | register r => cases denotes
  | symbol name => cases denotes
  | displaced name negative n => cases denotes
  | number negated n =>
    obtain rfl := Operand.immediate.inj denotes
    cases negated with
    | false =>
      have scanned : scanTokens text.toList = [.number n] := yields.symm
      obtain ⟨front, numeral, back, split, before, isNumeral, behind, value⟩ :=
        exists_number_of_scanTokens scanned
      exact ⟨false, numeral, n, split ▸ .plain before isNumeral behind, value, rfl⟩
    | true =>
      have scanned : scanTokens text.toList = [.minus, .number n] := yields.symm
      obtain ⟨front, c, rest, before, split, sign, number⟩ := exists_lexeme_of_scanTokens scanned
      obtain rfl : '-' = c := List.singleton_inj.1 (Token.display_of_isMark sign rfl)
      have number : scanTokens rest = [.number n] := number
      obtain ⟨between, numeral, back, rfl, within, isNumeral, behind, value⟩ :=
        exists_number_of_scanTokens number
      exact ⟨true, numeral, n, split ▸ .negated before within isNumeral behind, value, rfl⟩

theorem IsNumeral.ne_nil (h : IsNumeral numeral) : numeral ≠ [] := by
  obtain ⟨c, cs, rfl⟩ := h.exists_cons
  exact List.cons_ne_nil c cs

theorem WritesNumber.isNumeral (h : WritesNumber negative numeral cs) : IsNumeral numeral := by
  cases h with
  | plain _ isNumeral _ => exact isNumeral
  | negated _ _ isNumeral _ => exact isNumeral

theorem WritesNumber.trim_eq (h : WritesNumber negative numeral cs) :
    (negative = false ∧ trim cs = numeral) ∨
      (negative = true ∧ ∃ rest, trim cs = '-' :: rest ∧ trimStart rest = numeral) := by
  cases h with
  | @plain front numeral back before isNumeral behind =>
    refine .inl ⟨rfl, ?_⟩
    have whole : trimEnd ([] ++ numeral) = [] ++ numeral :=
      trimEnd_word isNumeral.isBlank isNumeral.ne_nil
    rw [trim, trimStart_append before, trimStart_word isNumeral.isBlank isNumeral.ne_nil,
      trimEnd_append_blanks behind]
    exact whole
  | @negated front between numeral back before within isNumeral behind =>
    refine .inr ⟨rfl, between ++ numeral, ?_, ?_⟩
    · have sign : trimStart (['-'] ++ (between ++ (numeral ++ back))) =
          ['-'] ++ (between ++ (numeral ++ back)) := trimStart_word (by decide) (by decide)
      have split : '-' :: (between ++ (numeral ++ back)) = ('-' :: between ++ numeral) ++ back := by
        simp
      rw [trim, trimStart_append before]
      rw [List.singleton_append] at sign
      rw [sign, split, trimEnd_append_blanks behind]
      exact trimEnd_word isNumeral.isBlank isNumeral.ne_nil
    · have whole : trimStart (numeral ++ []) = numeral ++ [] :=
        trimStart_word isNumeral.isBlank isNumeral.ne_nil
      rw [trimStart_append within]
      simpa using whole

theorem IsNumeral.noSign (h : IsNumeral numeral) (cs : List Char) :
    numeral ≠ '-' :: cs ∧ numeral ≠ '+' :: cs := by
  constructor <;> rintro rfl <;> exact absurd h.head_isDigit (by decide)

private theorem WritesNumber.numeralOf_eq (h : WritesNumber negative numeral text.toList) :
    numeralOf text = numeral := by
  rcases h.trim_eq with ⟨-, trimmed⟩ | ⟨-, rest, trimmed, kept⟩
  · rw [numeralOf, trimmed]
    split
    case h_1 cs => exact absurd rfl (h.isNumeral.noSign cs).1
    case h_2 => rfl
  · rw [numeralOf, trimmed]
    exact kept

private theorem WritesNumber.readInteger?_eq (h : WritesNumber negative numeral text.toList) :
    readInteger? text =
      (readBoundedMagnitude? numeral).map fun (m : Nat) => if negative then -(m : Int) else m := by
  rcases h.trim_eq with ⟨rfl, trimmed⟩ | ⟨rfl, rest, trimmed, kept⟩
  · rw [readInteger?, trimmed]
    split
    case h_1 cs => exact absurd rfl (h.isNumeral.noSign cs).1
    case h_2 cs => exact absurd rfl (h.isNumeral.noSign cs).2
    case h_3 => rfl
  · rw [readInteger?, trimmed]
    simp only [kept]
    cases readBoundedMagnitude? numeral <;> rfl

/-- A 64-bit word under a sign has the value of a number under the sign only if the two are equal, if the
number fits 64 bits. -/
theorem signedWord_modEq_iff (small : m < UInt64.size) :
    (signedWord negative n).toInt ≡ (if negative then -(m : Int) else m) [ZMOD 2 ^ 64] ↔
      m = n.toNat := by
  have word := toInt_signedWord_modEq ⟨fun _ => 0, fun _ => 0⟩ negative n
  have fits : n.toNat < UInt64.size := n.toNat_lt
  have magnitudes : (n.toNat : Int) ≡ m [ZMOD 2 ^ 64] ↔ m = n.toNat := by
    rw [UInt64.size] at small fits
    rw [Int.ModEq]
    omega
  rw [← magnitudes]
  have value : SignedTerm.value ⟨fun _ => 0, fun _ => 0⟩ ⟨negative, .number n⟩ =
      if negative then -(n.toNat : Int) else n.toNat := rfl
  rw [value] at word
  cases negative with
  | false => exact ⟨word.symm.trans, word.trans⟩
  | true =>
    refine Iff.trans ?_ Int.neg_modEq_neg
    exact ⟨word.symm.trans, word.trans⟩

/-- A text that is read as an operand and as a data argument denotes the same number modulo two to the
power of 64, unless a zero in front makes it octal in data and it is eight or more there. -/
theorem immediate_modEq_iff {v : Int} (operand : readOperand text = .ok (.immediate k))
    (data : readInteger? text = some v) :
    k.toInt ≡ v [ZMOD 2 ^ 64] ↔ ¬(isOctal (numeralOf text) ∧ 8 ≤ v.natAbs) := by
  obtain ⟨negative, numeral, n, writes, value, rfl⟩ := exists_writesNumber operand
  rw [writes.readInteger?_eq] at data
  obtain ⟨m, bounded, rfl⟩ := Option.map_eq_some_iff.1 data
  obtain ⟨read, -⟩ := Option.filter_eq_some_iff.1 bounded
  obtain ⟨atMost, same⟩ := le_and_eq_iff_of_readMagnitude? writes.isNumeral read
  have small : m < UInt64.size := Nat.lt_of_le_of_lt (value ▸ atMost) n.toNat_lt
  have absolute : (if negative then -(m : Int) else m).natAbs = m := by
    cases negative <;> simp
  rw [signedWord_modEq_iff small, ← value, same, writes.numeralOf_eq, absolute]

/-- A negative number that needs more than the bits of a signed word. -/
theorem immediate_modEq_iff_wrapping :
    readOperand "- 0X8000000000000001" = .ok (.immediate 0x7FFFFFFFFFFFFFFF) ∧
    readInteger? "- 0X8000000000000001" = some (-0x8000000000000001) ∧
    (0x7FFFFFFFFFFFFFFF : Int64).toInt ≡ -0x8000000000000001 [ZMOD 2 ^ 64] := by
  have operand : readOperand "- 0X8000000000000001" = .ok (.immediate 0x7FFFFFFFFFFFFFFF) := by
    decide +kernel
  have data : readInteger? "- 0X8000000000000001" = some (-0x8000000000000001) := by
    decide +kernel
  have noOctal : isOctal (numeralOf "- 0X8000000000000001") = false := by
    decide +kernel
  exact ⟨operand, data, (immediate_modEq_iff operand data).2 (by simp [noOctal])⟩

/-- A numeral with a zero in front is counted in two bases. -/
theorem octal_read_as_decimal :
    readOperand "010" = .ok (.immediate 10) ∧ readInteger? "010" = some 8 ∧
    ¬(10 : Int64).toInt ≡ 8 [ZMOD 2 ^ 64] := by
  decide +kernel

end AsmTranslit
