import AsmTranslit.Proofs.AlikeStatements
import AsmTranslit.Proofs.OperandDerivations
import AsmTranslit.Proofs.TokenTexts

/-!
# Letter case

Nothing that takes a text apart tells an ASCII capital from its small letter, so a text in lower case has
the parts of the text, in lower case.  Among the tokens only symbols and errors have letters left.
Instructions without symbols are therefore translated alike in either letter case.
-/

namespace AsmTranslit

/-- A token whose text is in lower case. -/
def Token.lowered : Token → Token
  | error lexeme => error (lowerCase lexeme)
  | ident name => ident (lowerCase name)
  | t => t

variable {α : Type} {c : Char} {cs : List Char} {word text text' : String} {ts us : List Token}

theorem toLower_eq_or (c : Char) : c.toLower = c ∨ ∃ n < 26, c = Char.ofNat (65 + n) := by
  by_cases upper : 'A'.val ≤ c.val ∧ c.val ≤ 'Z'.val
  · have first : 65 ≤ c.toNat := UInt32.le_iff_toNat_le.1 upper.1
    have last : c.toNat ≤ 90 := UInt32.le_iff_toNat_le.1 upper.2
    refine .inr ⟨c.toNat - 65, by omega, ?_⟩
    rw [Nat.add_sub_cancel' first, Char.ofNat_toNat]
  · exact .inl (by rw [Char.toLower.eq_def, dif_neg upper])

/-- What does not tell the capitals from their small letters does not depend on letter case. -/
theorem apply_toLower {p : Char → α}
    (letters : ∀ n < 26, p (Char.ofNat (65 + n)).toLower = p (Char.ofNat (65 + n))) (c : Char) :
    p c.toLower = p c := by
  rcases toLower_eq_or c with same | ⟨n, isLetter, rfl⟩
  · rw [same]
  · exact letters n isLetter

@[simp] theorem toLower_toLower (c : Char) : c.toLower.toLower = c.toLower :=
  apply_toLower (by decide) c

@[simp] theorem isBlank_toLower (c : Char) : isBlank c.toLower = isBlank c :=
  apply_toLower (by decide) c

@[simp] theorem isWordChar_toLower (c : Char) : isWordChar c.toLower = isWordChar c := by
  rw [isWordChar, isWordChar, isBlank_toLower]

@[simp] theorem isSymbolStart_toLower (c : Char) : isSymbolStart c.toLower = isSymbolStart c :=
  apply_toLower (by decide) c

@[simp] theorem isSymbolChar_toLower (c : Char) : isSymbolChar c.toLower = isSymbolChar c :=
  apply_toLower (by decide) c

@[simp] theorem isSeparator_toLower (c : Char) : isSeparator c.toLower = isSeparator c :=
  apply_toLower (by decide) c

@[simp] theorem isDigit_toLower (c : Char) : c.toLower.isDigit = c.isDigit :=
  apply_toLower (by decide) c

@[simp] theorem digitValue?_toLower (c : Char) : digitValue? c.toLower = digitValue? c :=
  apply_toLower (by decide) c

@[simp] theorem isDigitOf_toLower (radix : Nat) (c : Char) :
    isDigitOf radix c.toLower = isDigitOf radix c := by
  rw [isDigitOf, isDigitOf, digitValue?_toLower]

theorem isZero_toLower (c : Char) : (c.toLower == '0') = (c == '0') :=
  apply_toLower (p := (· == '0')) (by decide) c

theorem isHexMark_toLower (c : Char) :
    (c.toLower == 'x' || c.toLower == 'X') = (c == 'x' || c == 'X') :=
  apply_toLower (p := fun d => d == 'x' || d == 'X') (by decide) c

private theorem braceDepth_toLower (depth : Nat) (c : Char) :
    braceDepth depth c.toLower = braceDepth depth c := by
  have opens : (c.toLower == '\x7b') = (c == '\x7b') := apply_toLower (p := (· == '\x7b')) (by decide) c
  have closes : (c.toLower == '\x7d') = (c == '\x7d') := apply_toLower (p := (· == '\x7d')) (by decide) c
  have ofMarks (d : Char) : braceDepth depth d =
      if d == '\x7b' then depth + 1 else if d == '\x7d' then depth - 1 else depth := by
    rw [braceDepth.eq_def]
    split <;> simp_all
  rw [ofMarks, ofMarks, opens, closes]

@[simp] theorem lowerCase_ofList (cs : List Char) :
    lowerCase (String.ofList cs) = String.ofList (cs.map Char.toLower) := by
  rw [lowerCase, String.toList_ofList]

@[simp] theorem lowerCase_lowerCase (word : String) : lowerCase (lowerCase word) = lowerCase word := by
  have twice : Char.toLower ∘ Char.toLower = Char.toLower := funext toLower_toLower
  rw [lowerCase, lowerCase, String.toList_ofList, List.map_map, twice]

theorem takeWhile_toLower {p : Char → Bool} (letters : ∀ c, p c.toLower = p c) (cs : List Char) :
    (cs.map Char.toLower).takeWhile p = (cs.takeWhile p).map Char.toLower := by
  have same : p ∘ Char.toLower = p := funext letters
  rw [List.takeWhile_map, same]

theorem dropWhile_toLower {p : Char → Bool} (letters : ∀ c, p c.toLower = p c) (cs : List Char) :
    (cs.map Char.toLower).dropWhile p = (cs.dropWhile p).map Char.toLower := by
  have same : p ∘ Char.toLower = p := funext letters
  rw [List.dropWhile_map, same]

theorem trimStart_toLower (cs : List Char) :
    trimStart (cs.map Char.toLower) = (trimStart cs).map Char.toLower :=
  dropWhile_toLower isBlank_toLower cs

theorem trim_toLower (cs : List Char) : trim (cs.map Char.toLower) = (trim cs).map Char.toLower := by
  rw [trim, trim, trimStart_toLower, trimEnd, trimEnd, ← List.map_reverse,
    dropWhile_toLower isBlank_toLower, List.map_reverse]

private theorem pieces_toLower {σ : Type} {step : σ → Char → σ} {cut : σ → Char → Bool}
    (steps : ∀ s c, step s c.toLower = step s c) (cuts : ∀ s c, cut s c.toLower = cut s c) (s : σ)
    (cs : List Char) :
    pieces step cut s (cs.map Char.toLower) = (pieces step cut s cs).map (List.map Char.toLower) := by
  induction cs generalizing s with
  | nil => rfl
  | cons c cs ih =>
    rw [List.map_cons, pieces, pieces, cuts, steps, ih, ih]
    split
    case isTrue => rfl
    case isFalse => cases pieces step cut (step s c) cs <;> rfl

private theorem fields_toLower (parts : List (List Char)) :
    fields (parts.map (List.map Char.toLower)) = (fields parts).map lowerCase := by
  have trimmed : (parts.map (List.map Char.toLower)).map trim =
      (parts.map trim).map (List.map Char.toLower) := by
    simp [trim_toLower]
  have texts (trimmed : List (List Char)) : (trimmed.map (List.map Char.toLower)).map String.ofList =
      (trimmed.map String.ofList).map lowerCase := by
    rw [List.map_map, List.map_map]
    exact List.map_congr_left fun cs _ => (lowerCase_ofList cs).symm
  rw [fields, fields, trimmed]
  rcases parts.map trim with _ | ⟨_ | ⟨c, cs⟩, _ | ⟨second, others⟩⟩
  · rfl
  · rfl
  · exact texts ([] :: second :: others)
  · exact texts [c :: cs]
  · exact texts ((c :: cs) :: second :: others)

private theorem splitOperands_lowerCase (text : String) :
    splitOperands (lowerCase text) = (splitOperands text).map lowerCase := by
  have comma (c : Char) : (c.toLower == ',') = (c == ',') := apply_toLower (p := (· == ',')) (by decide) c
  rw [splitOperands, splitOperands, lowerCase, String.toList_ofList,
    pieces_toLower braceDepth_toLower (fun depth c => by rw [comma]), fields_toLower]

theorem statementOf_cons (c : Char) (cs : List Char) :
    statementOf (c :: cs) =
      if !(trimStart ((c :: cs).dropWhile isWordChar)).isEmpty &&
          isModifier (lowerCase (String.ofList ((c :: cs).takeWhile isWordChar))) then
        let statement := statementOf (trimStart ((c :: cs).dropWhile isWordChar))
        { statement with
          modifiers := String.ofList ((c :: cs).takeWhile isWordChar) :: statement.modifiers }
      else ⟨[], lowerCase (String.ofList ((c :: cs).takeWhile isWordChar)),
        splitOperands (String.ofList (trimStart ((c :: cs).dropWhile isWordChar)))⟩ := by
  rw [statementOf.eq_def]

/-- The parts of an instruction's text in lower case. -/
theorem statementOf_toLower (cs : List Char) :
    statementOf (cs.map Char.toLower) =
      ⟨(statementOf cs).modifiers.map lowerCase, (statementOf cs).mnemonic,
        (statementOf cs).operands.map lowerCase⟩ := by
  have first (c : Char) (cs : List Char) : lowerCase (String.ofList
      (((c :: cs).map Char.toLower).takeWhile isWordChar)) =
        lowerCase (String.ofList ((c :: cs).takeWhile isWordChar)) := by
    rw [takeWhile_toLower isWordChar_toLower, ← lowerCase_ofList, lowerCase_lowerCase]
  have behind (c : Char) (cs : List Char) :
      trimStart (((c :: cs).map Char.toLower).dropWhile isWordChar) =
        (trimStart ((c :: cs).dropWhile isWordChar)).map Char.toLower := by
    rw [dropWhile_toLower isWordChar_toLower, trimStart_toLower]
  induction cs using statementOf.induct with
  | case1 =>
    have none : statementOf [] = ⟨[], "", []⟩ := by rw [statementOf.eq_def]
    rw [List.map_nil, none]
    rfl
  | case2 c cs word rest more ih =>
    rw [List.map_cons, statementOf_cons, statementOf_cons, ← List.map_cons, first, behind,
      List.isEmpty_map, if_pos more, if_pos more, ih, takeWhile_toLower isWordChar_toLower,
      ← lowerCase_ofList]
    rfl
  | case3 c cs word rest last =>
    rw [List.map_cons, statementOf_cons, statementOf_cons, ← List.map_cons, first, behind,
      List.isEmpty_map, if_neg last, if_neg last, ← lowerCase_ofList, splitOperands_lowerCase]
    rfl

private theorem numeralTail_toLower (c : Char) (cs : List Char) :
    numeralTail c.toLower (cs.map Char.toLower) = (numeralTail c cs).map Char.toLower := by
  have digits (cs : List Char) : (cs.map Char.toLower).takeWhile Char.isDigit =
      (cs.takeWhile Char.isDigit).map Char.toLower := takeWhile_toLower isDigit_toLower cs
  have hexadecimal (cs : List Char) : (cs.map Char.toLower).takeWhile (isDigitOf 16) =
      (cs.takeWhile (isDigitOf 16)).map Char.toLower := takeWhile_toLower (isDigitOf_toLower 16) cs
  match cs with
  | [] => rfl
  | [x] => exact digits [x]
  | x :: digit :: cs =>
    rw [List.map_cons, List.map_cons, numeralTail, numeralTail, isZero_toLower, isHexMark_toLower,
      isDigitOf_toLower]
    split
    case isTrue => rw [hexadecimal, List.map_cons, List.map_cons]
    case isFalse => exact digits (x :: digit :: cs)

private theorem lexemeTail_toLower (c : Char) (cs : List Char) :
    lexemeTail c.toLower (cs.map Char.toLower) = (lexemeTail c cs).map Char.toLower := by
  rw [lexemeTail, lexemeTail, isSymbolStart_toLower, isDigit_toLower, numeralTail_toLower,
    takeWhile_toLower isSymbolChar_toLower]
  split
  case isTrue => rfl
  case isFalse => split <;> rfl

private theorem Token.ofWord_lowerCase (word : String) :
    ofWord (lowerCase word) = (ofWord word).lowered := by
  have register : Register.ofIntel? (lowerCase word) = Register.ofIntel? word := by
    rw [Register.ofIntel?, Register.ofIntel?, lowerCase_lowerCase]
  have size : Size.ofKeyword? (lowerCase word) = Size.ofKeyword? word := by
    rw [Size.ofKeyword?, Size.ofKeyword?, lowerCase_lowerCase]
  rw [ofWord, ofWord, register, size, lowerCase_lowerCase]
  cases Register.ofIntel? word with
  | some r => rfl
  | none =>
    cases Size.ofKeyword? word with
    | some s => rfl
    | none =>
      simp only
      split <;> rfl

private theorem numeralLexemeValue_toLower (cs : List Char) :
    numeralLexemeValue (cs.map Char.toLower) = numeralLexemeValue cs := by
  have value (radix : Nat) (digits : List Char) :
      numeralValue radix (digits.map Char.toLower) = numeralValue radix digits := by
    rw [numeralValue, numeralValue, List.foldl_map]
    simp only [digitValue?_toLower]
  fun_cases numeralLexemeValue cs with
  | case1 digits => exact value 16 digits
  | case2 digits => exact value 16 digits
  | case3 _ small capital =>
    have noMark (x : Char) (digits : List Char) (isMark : x == 'x' || x == 'X') :
        cs.map Char.toLower ≠ '0' :: x :: digits := by
      intro same
      obtain ⟨zero, behind, rfl, isZero, same⟩ := List.map_eq_cons_iff.1 same
      obtain ⟨mark, digits, rfl, rfl, -⟩ := List.map_eq_cons_iff.1 same
      obtain rfl : zero = '0' := by
        rw [← beq_iff_eq, ← isZero_toLower, isZero]
        rfl
      rw [isHexMark_toLower, Bool.or_eq_true, beq_iff_eq, beq_iff_eq] at isMark
      rcases isMark with rfl | rfl
      · exact small digits rfl
      · exact capital digits rfl
    rw [numeralLexemeValue, value]
    · exact fun digits => noMark 'x' digits rfl
    · exact fun digits => noMark 'X' digits rfl

/-- What starts no word is no letter. -/
theorem toLower_eq_self (noWord : isSymbolStart c = false) : c.toLower = c := by
  rcases toLower_eq_or c with same | ⟨n, isLetter, rfl⟩
  · exact same
  · have letters : ∀ n < 26, isSymbolStart (Char.ofNat (65 + n)) := by decide
    rw [letters n isLetter] at noWord
    cases noWord

private theorem Token.lowered_ofMark (noWord : isSymbolStart c = false) :
    (ofMark c).lowered = ofMark c := by
  rw [ofMark.eq_def]
  split
  case h_9 => rw [lowered, lowerCase, String.toList_singleton, List.map_singleton, toLower_eq_self noWord,
      String.singleton_eq_ofList]
  all_goals rfl

private theorem Token.ofLexeme_toLower (c : Char) (tail : List Char) :
    ofLexeme c.toLower (tail.map Char.toLower) = (ofLexeme c tail).lowered := by
  rw [ofLexeme, ofLexeme, isSymbolStart_toLower, isDigit_toLower, ← List.map_cons, ← lowerCase_ofList,
    ofWord_lowerCase]
  split
  case isTrue => rfl
  case isFalse noWord =>
    split
    case isTrue =>
      simp only [ofNumeral, numeralLexemeValue_toLower]
      split
      case isTrue => rfl
      case isFalse => rw [lowered, lowerCase_ofList]
    case isFalse =>
      rw [Bool.not_eq_true] at noWord
      rw [toLower_eq_self noWord, lowered_ofMark noWord]

/-- The tokens of a text in lower case. -/
theorem scanTokens_toLower (cs : List Char) :
    scanTokens (cs.map Char.toLower) = (scanTokens cs).map Token.lowered := by
  induction cs using scanTokens_induction with
  | nil => rw [List.map_nil, scanTokens_nil, List.map_nil]
  | separator c cs separates ih =>
    rw [List.map_cons, scanTokens_separator (by rwa [isSeparator_toLower]),
      scanTokens_separator separates, ih]
  | lexeme c cs plain ih =>
    rw [List.map_cons, scanTokens_lexeme (by rwa [isSeparator_toLower]), scanTokens_lexeme plain,
      lexemeTail_toLower, List.length_map, ← List.map_drop, ih, Token.ofLexeme_toLower, List.map_cons]

theorem tokens_lowerCase (text : String) :
    tokens (lowerCase text) = (tokens text).map Token.lowered := by
  have scanned := scanTokens_toLower text.toList
  rwa [← String.toList_ofList (l := text.toList.map Char.toLower)] at scanned

private theorem Token.lowered_eq_iff {t u : Token} (noError : ∀ lexeme, t ≠ .error lexeme)
    (noSymbol : ∀ name, t ≠ .ident name) : u.lowered = t.lowered ↔ u = t := by
  cases t with
  | error lexeme => exact absurd rfl (noError lexeme)
  | ident name => exact absurd rfl (noSymbol name)
  | _ => cases u <;> simp [lowered]

/-- An error stays one. -/
theorem exists_error_of_lowered {lexeme : String} (letters : us.map Token.lowered = ts.map Token.lowered)
    (member : .error lexeme ∈ ts) : ∃ other, .error other ∈ us := by
  have inLower : (Token.error lexeme).lowered ∈ us.map Token.lowered :=
    letters ▸ List.mem_map_of_mem member
  obtain ⟨u, inOther, same⟩ := List.mem_map.1 inLower
  cases u with
  | error other => exact ⟨other, inOther⟩
  | _ => cases same

private theorem eq_of_map_lowered (letters : us.map Token.lowered = ts.map Token.lowered)
    (noError : ∀ lexeme, .error lexeme ∉ ts) (noSymbol : ∀ name, .ident name ∉ ts) : us = ts := by
  induction ts generalizing us with
  | nil => exact List.map_eq_nil_iff.1 letters
  | cons t ts ih =>
    obtain ⟨u, others, rfl, first, later⟩ := List.map_eq_cons_iff.1 letters
    obtain rfl : u = t := by
      refine (Token.lowered_eq_iff ?_ ?_).1 first
      · rintro lexeme rfl
        exact noError lexeme List.mem_cons_self
      · rintro name rfl
        exact noSymbol name List.mem_cons_self
    have behind := ih later (fun lexeme member => noError lexeme (List.mem_cons_of_mem u member))
      fun name member => noSymbol name (List.mem_cons_of_mem u member)
    rw [behind]

private theorem readAlike_of_lowerCase (letters : lowerCase text' = lowerCase text)
    (noSymbol : ∀ name, .ident name ∉ tokens text) : ReadAlike text text' := by
  have same : (tokens text').map Token.lowered = (tokens text).map Token.lowered := by
    rw [← tokens_lowerCase, ← tokens_lowerCase, letters]
  by_cases errors : ∃ lexeme, .error lexeme ∈ tokens text
  · obtain ⟨lexeme, member⟩ := errors
    obtain ⟨other, member'⟩ := exists_error_of_lowered same member
    have unread {ts : List Token} {lexeme : String} (member : .error lexeme ∈ ts) :
        (readTokens ts).toOption = none := by
      cases read : readTokens ts with
      | error fault => rfl
      | ok operand => exact absurd member ((readTokens_eq_ok_iff.1 read).1 lexeme)
    rw [ReadAlike, readOperand, readOperand, unread member, unread member']
  · have equal : tokens text' = tokens text :=
      eq_of_map_lowered same (fun lexeme member => errors ⟨lexeme, member⟩) noSymbol
    rw [ReadAlike, readOperand, readOperand, equal]

theorem ofText_lowerCase (text : String) :
    Statement.ofText (lowerCase text) =
      ⟨(Statement.ofText text).modifiers.map lowerCase, (Statement.ofText text).mnemonic,
        (Statement.ofText text).operands.map lowerCase⟩ := by
  rw [Statement.ofText, Statement.ofText, lowerCase, String.toList_ofList, trim_toLower,
    statementOf_toLower]

private theorem forall₂_readAlike {texts texts' : List String}
    (letters : texts'.map lowerCase = texts.map lowerCase)
    (noSymbols : ∀ operand ∈ texts, ∀ name, .ident name ∉ tokens operand) :
    List.Forall₂ ReadAlike texts texts' := by
  induction texts generalizing texts' with
  | nil =>
    obtain rfl := List.map_eq_nil_iff.1 letters
    exact .nil
  | cons operand texts ih =>
    obtain ⟨operand', others, rfl, first, later⟩ := List.map_eq_cons_iff.1 letters
    obtain ⟨noSymbol, noSymbols⟩ := List.forall_mem_cons.1 noSymbols
    exact .cons (readAlike_of_lowerCase first noSymbol) (ih later noSymbols)

/-- Instructions whose texts differ in the case of ASCII letters, and whose operands name no symbols,
have the same lines or fail both. -/
theorem instructionLines_letterCase {context : BodyContext} {isLast : Bool}
    (letters : lowerCase text' = lowerCase text)
    (noSymbols : ∀ operand ∈ (Statement.ofText text).operands, ∀ name, .ident name ∉ tokens operand) :
    (instructionLines context isLast text').toOption =
      (instructionLines context isLast text).toOption := by
  have parts : Statement.mk ((Statement.ofText text').modifiers.map lowerCase)
      (Statement.ofText text').mnemonic ((Statement.ofText text').operands.map lowerCase) =
        ⟨(Statement.ofText text).modifiers.map lowerCase, (Statement.ofText text).mnemonic,
          (Statement.ofText text).operands.map lowerCase⟩ := by
    rw [← ofText_lowerCase, ← ofText_lowerCase, letters]
  obtain ⟨modifiers, mnemonic, operands⟩ := Statement.mk.inj parts
  have alike : (Statement.ofText text).Alike (Statement.ofText text') :=
    ⟨modifiers, mnemonic, forall₂_readAlike operands noSymbols⟩
  rw [instructionLines_eq_lines, instructionLines_eq_lines]
  exact alike.paired_lines.toOption_eq

/-- A vector instruction with capitals in its mnemonic, its registers, a size and a number. -/
theorem instructionLines_letterCase_vector :
    lowerCase "VpaddD Ymm0, yMM1, YMMWORD PTR [RAX+0X1F]" =
      lowerCase "vpaddd ymm0, ymm1, ymmword ptr [rax+0x1f]" ∧
    (instructionLines ⟨"f", [], []⟩ true "VpaddD Ymm0, yMM1, YMMWORD PTR [RAX+0X1F]").toOption =
      some [.instruction none "VPADDD" [.address (.based 31 (.general 0) none),
        .register (.vector .ymm 1), .register (.vector .ymm 0)]] := by
  have letters : lowerCase "VpaddD Ymm0, yMM1, YMMWORD PTR [RAX+0X1F]" =
      lowerCase "vpaddd ymm0, ymm1, ymmword ptr [rax+0x1f]" := by
    decide +kernel
  have texts : (Statement.ofText "vpaddd ymm0, ymm1, ymmword ptr [rax+0x1f]").operands =
      ["ymm0", "ymm1", "ymmword ptr [rax+0x1f]"] := by
    decide +kernel
  have registers : tokens "ymm0" = [.register (.vector .ymm 0)] ∧
      tokens "ymm1" = [.register (.vector .ymm 1)] := by
    decide +kernel
  have address : tokens "ymmword ptr [rax+0x1f]" = [.size .ymmword, .ptr, .leftBracket,
      .register (.general .qword 0), .plus, .number 31, .rightBracket] := by
    decide +kernel
  have noSymbols : ∀ operand ∈ (Statement.ofText "vpaddd ymm0, ymm1, ymmword ptr [rax+0x1f]").operands,
      ∀ name, .ident name ∉ tokens operand := by
    rw [texts]
    simp [registers, address]
  have small : (instructionLines ⟨"f", [], []⟩ true
      "vpaddd ymm0, ymm1, ymmword ptr [rax+0x1f]").toOption =
        some [.instruction none "VPADDD" [.address (.based 31 (.general 0) none),
          .register (.vector .ymm 1), .register (.vector .ymm 0)]] := by
    decide +kernel
  exact ⟨letters, (instructionLines_letterCase letters noSymbols).trans small⟩

end AsmTranslit
