import AsmTranslit.Proofs.DecimalNumerals
import AsmTranslit.Proofs.RegisterNames
import AsmTranslit.Proofs.SymbolTokens
import Mathlib.Data.List.TakeWhile

/-!
# Texts of tokens

Texts that are scanned as the tokens that they were written for.  What is put behind a word or a numeral
must not go on with symbol characters; under that condition texts can be put together, and their tokens
are those of the parts.
-/

namespace AsmTranslit

def scanTokens (cs : List Char) : List Token :=
  (scanFrom 0 cs).map PlacedToken.token

/-- A text is scanned as tokens, whatever stands behind it, if that is not a symbol character. -/
def ScannedAs (text : String) (ts : List Token) : Prop :=
  ∀ rest, joins rest.head? = false → scanTokens (text.toList ++ rest) = ts ++ scanTokens rest

/-- A text is scanned as tokens, whatever stands behind it. -/
def ClosedAs (text : String) (ts : List Token) : Prop :=
  ∀ rest, scanTokens (text.toList ++ rest) = ts ++ scanTokens rest

/-- A name that is scanned as a symbol: an identifier that is no register, no size and not `ptr`. -/
structure IsSymbolName (name : String) : Prop where
  start : name.toList.head?.any isSymbolStart
  symbols : ∀ c ∈ name.toList, isSymbolChar c
  noRegister : Register.ofIntel? name = none
  noSize : Size.ofKeyword? name = none
  noPtr : lowerCase name ≠ "ptr"

variable {first second text : String} {ts us : List Token} {c : Char} {cs rest : List Char}

/-- The place of a text has no influence on its tokens. -/
theorem map_token_scanFrom (start : Nat) (cs : List Char) :
    (scanFrom start cs).map PlacedToken.token = scanTokens cs := by
  suffices same : ∀ other, (scanFrom start cs).map PlacedToken.token =
      (scanFrom other cs).map PlacedToken.token from same 0
  intro other
  fun_induction scanFrom start cs generalizing other with
  | case1 => simp [scanFrom]
  | case2 start c cs separates ih =>
    conv_rhs => rw [scanFrom, if_pos separates]
    exact ih _
  | case3 start c cs separates tail =>
    rename_i stop ih
    conv_rhs => rw [scanFrom, if_neg separates]
    rw [List.map_cons, List.map_cons, ih]

@[simp] theorem scanTokens_nil : scanTokens [] = [] := by
  rw [scanTokens, scanFrom, List.map_nil]

theorem scanTokens_separator (separates : isSeparator c) : scanTokens (c :: cs) = scanTokens cs := by
  rw [scanTokens, scanFrom, if_pos separates, map_token_scanFrom]

theorem scanTokens_lexeme (plain : isSeparator c = false) :
    scanTokens (c :: cs) =
      Token.ofLexeme c (lexemeTail c cs) :: scanTokens (cs.drop (lexemeTail c cs).length) := by
  rw [scanTokens, scanFrom, plain, if_neg Bool.false_ne_true, List.map_cons, map_token_scanFrom]

/-- The scanner goes on behind a separating character or behind a lexeme. -/
@[elab_as_elim]
theorem scanTokens_induction {motive : List Char → Prop} (nil : motive [])
    (separator : ∀ c cs, isSeparator c = true → motive cs → motive (c :: cs))
    (lexeme : ∀ c cs, isSeparator c = false → motive (cs.drop (lexemeTail c cs).length) →
      motive (c :: cs)) (cs : List Char) : motive cs := by
  match cs with
  | [] => exact nil
  | c :: cs =>
    cases separates : isSeparator c with
    | true => exact separator c cs separates (scanTokens_induction nil separator lexeme cs)
    | false => exact lexeme c cs separates (scanTokens_induction nil separator lexeme (cs.drop _))
termination_by cs.length
decreasing_by
  · simp only [List.length_drop, List.length_cons]
    omega
  · simp

/-- The first token of a text, and what is behind it. -/
theorem exists_lexeme_of_scanTokens {t : Token} (h : scanTokens cs = t :: ts) :
    ∃ front c rest, (∀ d ∈ front, isBlank d) ∧ cs = front ++ c :: rest ∧
      Token.ofLexeme c (lexemeTail c rest) = t ∧
      scanTokens (rest.drop (lexemeTail c rest).length) = ts := by
  induction cs with
  | nil => simp at h
  | cons c cs ih =>
    cases separates : isSeparator c with
    | true =>
      rw [scanTokens_separator separates] at h
      obtain ⟨front, d, rest, blanks, rfl, token, others⟩ := ih h
      refine ⟨c :: front, d, rest, ?_, rfl, token, others⟩
      exact List.forall_mem_cons.2 ⟨isBlank_of_isSeparator separates, blanks⟩
    | false =>
      rw [scanTokens_lexeme separates] at h
      obtain ⟨token, others⟩ := List.cons.inj h
      exact ⟨[], c, cs, by simp, rfl, token, others⟩

def Token.isMark : Token → Bool
  | leftBracket => true
  | rightBracket => true
  | leftBrace => true
  | rightBrace => true
  | plus => true
  | minus => true
  | asterisk => true
  | colon => true
  | _ => false

private theorem Token.isMark_ofWord (word : String) : (ofWord word).isMark = false := by
  fun_cases ofWord word with
  | _ => rfl

theorem Token.display_of_isMark {t : Token} (h : ofLexeme c cs = t) (mark : t.isMark) :
    t.display.toList = [c] := by
  obtain rfl := h
  revert mark
  rw [ofLexeme]
  split
  case isTrue => simp [isMark_ofWord]
  case isFalse =>
    split
    case isTrue =>
      simp only [ofNumeral]
      split <;> simp [isMark]
    case isFalse =>
      rw [ofMark.eq_def]
      split <;> simp [isMark, display]

private theorem isSeparator_of_isSymbolChar (symbol : isSymbolChar c) : isSeparator c = false := by
  rw [Bool.eq_false_iff]
  intro separates
  rw [isSymbolChar_of_isBlank (isBlank_of_isSeparator separates)] at symbol
  cases symbol

theorem isSymbolChar_of_isDigit (digit : c.isDigit) : isSymbolChar c := by
  simp [isSymbolChar, Char.isAlphanum, digit]

theorem isSymbolChar_of_isDigitOf {radix : Nat} (digit : isDigitOf radix c) : isSymbolChar c := by
  simp [isSymbolChar, isAlphanum_of_isDigitOf digit]

/-- A run of symbol characters does not go on where none follows. -/
theorem takeWhile_apart {p : Char → Bool} (symbols : ∀ c, p c → isSymbolChar c)
    (apart : joins rest.head? = false) (cs : List Char) : (cs ++ rest).takeWhile p = cs.takeWhile p := by
  have stop : rest.takeWhile p = [] := by
    cases rest with
    | nil => rfl
    | cons d rest =>
      have noSymbol : isSymbolChar d = false := apart
      rw [List.takeWhile_cons_of_neg]
      intro goesOn
      exact Bool.false_ne_true (noSymbol.symm.trans (symbols d goesOn))
  induction cs with
  | nil => exact stop
  | cons c cs ih => rw [List.cons_append, List.takeWhile_cons, List.takeWhile_cons, ih]

private theorem numeralTail_apart (apart : joins rest.head? = false) (cs : List Char) :
    numeralTail c (cs ++ rest) = numeralTail c cs := by
  have digits := takeWhile_apart (p := Char.isDigit) (fun _ => isSymbolChar_of_isDigit) apart
  have hexDigits := takeWhile_apart (p := isDigitOf 16) (fun _ => isSymbolChar_of_isDigitOf) apart
  match cs, rest with
  | [], [] => rfl
  | [], [_] => exact digits []
  | [], x :: digit :: rest =>
    have noSymbol : isSymbolChar x = false := apart
    have noMark : (x == 'x' || x == 'X') = false := by
      rw [Bool.or_eq_false_iff, beq_eq_false_iff_ne, beq_eq_false_iff_ne]
      constructor <;> rintro rfl <;> cases noSymbol
    rw [List.nil_append, numeralTail, noMark, Bool.and_false, Bool.false_and,
      if_neg Bool.false_ne_true]
    exact digits []
  | [x], [] => rfl
  | [x], digit :: rest =>
    have noDigit : isDigitOf 16 digit = false := by
      rw [Bool.eq_false_iff]
      intro isDigit
      exact Bool.false_ne_true (apart.symm.trans (isSymbolChar_of_isDigitOf isDigit))
    rw [List.singleton_append, numeralTail, noDigit, Bool.and_false, if_neg Bool.false_ne_true]
    exact digits [x]
  | x :: digit :: cs, rest =>
    rw [List.cons_append, List.cons_append, numeralTail, numeralTail, hexDigits]
    split
    case isTrue => rfl
    case isFalse => exact digits (x :: digit :: cs)

private theorem lexemeTail_apart (apart : joins rest.head? = false) (cs : List Char) :
    lexemeTail c (cs ++ rest) = lexemeTail c cs := by
  rw [lexemeTail, lexemeTail, takeWhile_apart (fun _ symbol => symbol) apart, numeralTail_apart apart]

private theorem scanTokens_append (apart : joins rest.head? = false) (cs : List Char) :
    scanTokens (cs ++ rest) = scanTokens cs ++ scanTokens rest := by
  induction cs using scanTokens_induction with
  | nil => rw [List.nil_append, scanTokens_nil, List.nil_append]
  | separator c cs separates ih =>
    rw [List.cons_append, scanTokens_separator separates, scanTokens_separator separates, ih]
  | lexeme c cs plain ih =>
    have within : (lexemeTail c cs).length ≤ cs.length := (lexemeTail_isPrefix c cs).length_le
    rw [List.cons_append, scanTokens_lexeme plain, scanTokens_lexeme plain, lexemeTail_apart apart,
      List.drop_append_of_le_length within, ih, List.cons_append]

theorem scannedAs_tokens (text : String) : ScannedAs text (tokens text) :=
  fun _ apart => scanTokens_append apart text.toList

theorem plain_of_isDigit (digit : c.isDigit) :
    isSymbolStart c = false ∧ isSeparator c = false ∧ c ≠ 'x' ∧ c ≠ 'X' := by
  have all : ∀ n : Fin 10, isSymbolStart (Nat.digitChar n) = false ∧
      isSeparator (Nat.digitChar n) = false ∧ Nat.digitChar n ≠ 'x' ∧ Nat.digitChar n ≠ 'X' := by
    decide
  rw [← digitChar_digitValue digit]
  exact all ⟨_, digitValue_lt digit⟩

theorem tokens_lexeme (word : text.toList = c :: cs) (plain : isSeparator c = false)
    (tail : lexemeTail c cs = cs) : tokens text = [Token.ofLexeme c cs] := by
  have scanned : tokens text = scanTokens (c :: cs) := by rw [← word]; rfl
  rw [scanned, scanTokens_lexeme plain, tail, List.drop_length, scanTokens_nil]

theorem scannedAs_word (start : text.toList.head?.any isSymbolStart)
    (symbols : ∀ c ∈ text.toList, isSymbolChar c) : ScannedAs text [Token.ofWord text] := by
  obtain ⟨c, first, start⟩ := (Option.any_eq_true _ _).1 start
  obtain ⟨cs, word⟩ := List.head?_eq_some_iff.1 first
  rw [word, List.forall_mem_cons] at symbols
  have tail : lexemeTail c cs = cs := by
    rw [lexemeTail, if_pos start]
    exact List.takeWhile_eq_self_iff.2 symbols.2
  have single : tokens text = [Token.ofWord text] := by
    rw [tokens_lexeme word (isSeparator_of_isSymbolChar symbols.1) tail, Token.ofLexeme, if_pos start,
      ← word, String.ofList_toList]
  exact single ▸ scannedAs_tokens text

/-- Decimal digits are taken together, since no prefix of a hexadecimal numeral is among them. -/
theorem numeralTail_digits (digits : ∀ d ∈ cs, d.isDigit) : numeralTail c cs = cs := by
  have run : cs.takeWhile Char.isDigit = cs := List.takeWhile_eq_self_iff.2 digits
  fun_cases numeralTail c cs with
  | case1 x digit tail hexadecimal =>
    obtain ⟨-, -, lower, upper⟩ := plain_of_isDigit (digits x List.mem_cons_self)
    simp [lower, upper] at hexadecimal
  | case2 => exact run
  | case3 => exact run

theorem numeralLexemeValue_digits (digits : ∀ d ∈ cs, d.isDigit) :
    numeralLexemeValue cs = numeralValue 10 cs := by
  fun_cases numeralLexemeValue cs with
  | case1 tail => exact absurd (digits 'x' (by simp)) (by decide)
  | case2 tail => exact absurd (digits 'X' (by simp)) (by decide)
  | case3 => rfl

theorem scannedAs_number (n : UInt64) : ScannedAs (toString n.toNat) [.number n] := by
  have digits : ∀ d ∈ Nat.toDigits 10 n.toNat, d.isDigit := fun d member => isDigit_of_mem_toDigits member
  have value : numeralLexemeValue (Nat.toDigits 10 n.toNat) = n.toNat := by
    rw [numeralLexemeValue_digits digits, numeralValue_ten_eq_ofDigitChars digits,
      Nat.ofDigitChars_ten_toDigits]
  have small : n.toNat < UInt64.size := n.toNat_lt
  have token : Token.ofNumeral (Nat.toDigits 10 n.toNat) = .number n := by
    rw [Token.ofNumeral, value, if_pos small, UInt64.ofNat_toNat]
  obtain ⟨c, cs, numeral⟩ := List.exists_cons_of_ne_nil (Nat.toDigits_ne_nil (b := 10) (n := n.toNat))
  have word : (toString n.toNat).toList = c :: cs := by
    rw [Nat.toString_eq_ofList_toDigits, String.toList_ofList, numeral]
  rw [numeral, List.forall_mem_cons] at digits
  rw [numeral] at token
  obtain ⟨noWord, plain, -⟩ := plain_of_isDigit digits.1
  have tail : lexemeTail c cs = cs := by
    rw [lexemeTail, noWord, if_neg Bool.false_ne_true, if_pos digits.1, numeralTail_digits digits.2]
  have single : tokens (toString n.toNat) = [.number n] := by
    rw [tokens_lexeme word plain tail, Token.ofLexeme, noWord, if_neg Bool.false_ne_true,
      if_pos digits.1, token]
  exact single ▸ scannedAs_tokens (toString n.toNat)

/-- The tokens of a text without words and numerals. -/
def markTokens (cs : List Char) : List Token :=
  (cs.filter (!isSeparator ·)).map Token.ofMark

theorem closedAs_marks (text : String)
    (marks : ∀ c ∈ text.toList, isSymbolStart c = false ∧ c.isDigit = false) :
    ClosedAs text (markTokens text.toList) := by
  intro rest
  generalize text.toList = cs at marks
  induction cs with
  | nil => rfl
  | cons c cs ih =>
    rw [List.forall_mem_cons] at marks
    obtain ⟨⟨noWord, noNumeral⟩, marks⟩ := marks
    rw [List.cons_append]
    cases separates : isSeparator c with
    | true =>
      rw [scanTokens_separator separates, ih marks]
      simp [markTokens, separates]
    | false =>
      have tail : lexemeTail c (cs ++ rest) = [] := by
        rw [lexemeTail, noWord, noNumeral, if_neg Bool.false_ne_true, if_neg Bool.false_ne_true]
      rw [scanTokens_lexeme separates, tail, List.length_nil, List.drop_zero, ih marks]
      simp [markTokens, separates, Token.ofLexeme, noWord, noNumeral]

private theorem joins_append (h : joins first.toList.head? = false) (apart : joins rest.head? = false) :
    joins (first.toList ++ rest).head? = false := by
  rw [List.head?_append]
  cases head : first.toList.head? with
  | none => exact apart
  | some c => rwa [head] at h

theorem ScannedAs.append (h : ScannedAs first ts) (h' : ScannedAs second us)
    (apart : joins second.toList.head? = false) : ScannedAs (first ++ second) (ts ++ us) := by
  intro rest behind
  rw [String.toList_append, List.append_assoc, h _ (joins_append apart behind), h' _ behind,
    List.append_assoc]

/-- A text that starts with a mark may follow, and nothing needs to be known of what is behind it. -/
theorem ScannedAs.closed (h : ScannedAs first ts) (h' : ClosedAs second us)
    (apart : ∃ c ∈ second.toList.head?, isSymbolChar c = false) :
    ClosedAs (first ++ second) (ts ++ us) := by
  obtain ⟨c, head, noSymbol⟩ := apart
  intro rest
  have behind : joins (second.toList ++ rest).head? = false := by
    rw [List.head?_append, head]
    exact noSymbol
  rw [String.toList_append, List.append_assoc, h _ behind, h' rest, List.append_assoc]

theorem ClosedAs.append (h : ClosedAs first ts) (h' : ScannedAs second us) :
    ScannedAs (first ++ second) (ts ++ us) := by
  intro rest behind
  rw [String.toList_append, List.append_assoc, h, h' rest behind, List.append_assoc]

theorem ClosedAs.append_closed (h : ClosedAs first ts) (h' : ClosedAs second us) :
    ClosedAs (first ++ second) (ts ++ us) := by
  intro rest
  rw [String.toList_append, List.append_assoc, h, h' rest, List.append_assoc]

theorem ClosedAs.scannedAs (h : ClosedAs text ts) : ScannedAs text ts :=
  fun rest _ => h rest

theorem ScannedAs.tokens_eq (h : ScannedAs text ts) : tokens text = ts := by
  have whole := h [] rfl
  rwa [scanTokens_nil, List.append_nil, List.append_nil] at whole

/-- The name of a register is a word in lower case. -/
theorem Register.intelName_isWord (r : Register) :
    r.intelName.toList.head?.any isSymbolStart ∧ r.intelName.toList.all isSymbolChar ∧
      lowerCase r.intelName = r.intelName := by
  cases r with
  | general width n => revert n; cases width <;> decide
  | highByte n => revert n; decide
  | vector width n => revert n; cases width <;> decide +kernel
  | mask n => revert n; decide +kernel
  | segment n => revert n; decide
  | instructionPointer => decide

theorem Register.scannedAs (r : Register) : ScannedAs r.intelName [.register r] := by
  obtain ⟨start, symbols, lower⟩ := r.intelName_isWord
  have token : Token.ofWord r.intelName = .register r := by
    rw [Token.ofWord, Register.ofIntel?_of_name (.inl lower)]
  have scanned := scannedAs_word start (List.all_eq_true.1 symbols)
  rwa [token] at scanned

theorem Size.scannedAs (s : Size) : ScannedAs s.keyword [.size s] := by
  have token : Token.ofWord s.keyword = .size s := by cases s <;> decide
  have scanned : ScannedAs s.keyword [Token.ofWord s.keyword] := by
    apply scannedAs_word
    · cases s <;> decide
    · exact List.all_eq_true.1 (by cases s <;> decide)
  rwa [token] at scanned

theorem Token.ofWord_eq_ident_iff {word name : String} :
    Token.ofWord word = .ident name ↔ word = name ∧ Register.ofIntel? word = none ∧
      Size.ofKeyword? word = none ∧ lowerCase word ≠ "ptr" := by
  rw [Token.ofWord]
  cases Register.ofIntel? word with
  | some r => simp
  | none =>
    cases Size.ofKeyword? word with
    | some s => simp
    | none => by_cases ptr : lowerCase word = "ptr" <;> simp [ptr]

theorem IsSymbolName.scannedAs {name : String} (h : IsSymbolName name) :
    ScannedAs name [.ident name] := by
  have token : Token.ofWord name = .ident name :=
    Token.ofWord_eq_ident_iff.2 ⟨rfl, h.noRegister, h.noSize, h.noPtr⟩
  have scanned := scannedAs_word h.start h.symbols
  rwa [token] at scanned

/-- A symbol among the tokens of a text has a name that is scanned as a symbol. -/
theorem isSymbolName_of_ident {start : Nat} {name : String}
    (h : .ident name ∈ (scanFrom start cs).map PlacedToken.token) : IsSymbolName name := by
  obtain ⟨-, symbols⟩ := isSymbolChar_of_ident h
  fun_induction scanFrom start cs with
  | case1 => simp at h
  | case2 start c cs separates ih => exact ih h
  | case3 start c cs separates tail =>
    rename_i stop ih
    rcases List.mem_cons.1 h with isFirst | later
    · obtain ⟨begins, word⟩ := Token.ofLexeme_eq_ident isFirst.symm
      have isWord : Token.ofWord name = .ident name := by
        rw [Token.ofLexeme, if_pos begins, ← word, String.ofList_toList] at isFirst
        exact isFirst.symm
      obtain ⟨-, noRegister, noSize, noPtr⟩ := Token.ofWord_eq_ident_iff.1 isWord
      exact ⟨by simp [word, begins], symbols, noRegister, noSize, noPtr⟩
    · exact ih later

end AsmTranslit
