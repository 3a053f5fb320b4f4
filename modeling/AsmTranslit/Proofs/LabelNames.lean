import AsmTranslit.Proofs.LetterCase
import AsmTranslit.Proofs.LineContents

/-!
# Names of labels

Labels and the symbols of operands are words over one alphabet.  The name of a label is a symbol as an
operand, unless operands use the word for a register, a size or `ptr`; and a line that is scanned as a
symbol and a colon is a label.
-/

namespace AsmTranslit

-- A statement on the members of a list is decided along the list, never over every character.
attribute [local instance (high)] List.decidableBAll

def sizeWords : List String :=
  ["byte", "word", "dword", "qword", "tbyte", "xword", "xmmword", "oword", "ymmword", "zmmword"]

/-- A word that operands use for something else than a symbol, in either letter case. -/
inductive IsReserved (word : String) : Prop
  | register (r : Register) (named : lowerCase word = r.intelName)
  | size (named : lowerCase word ∈ sizeWords)
  | ptr (named : lowerCase word = "ptr")

variable {line name word : String} {front gap back rest cs : List Char}

private theorem Size.ofKeyword?_eq_none_iff : ofKeyword? word = none ↔ lowerCase word ∉ sizeWords := by
  rw [ofKeyword?]
  split <;> simp_all [sizeWords]

private theorem Register.ofIntel?_eq_none (symbols : ∀ c ∈ word.toList, isSymbolChar c)
    (unnamed : ∀ r : Register, lowerCase word ≠ r.intelName) : ofIntel? word = none := by
  rw [Option.eq_none_iff_forall_ne_some]
  intro r h
  rcases name_of_ofIntel? h with printed | ⟨family, number, digits, -, split, -⟩
  · exact unnamed r printed
  · have plus : '+' ∈ word.toList.map Char.toLower := by
      rw [← String.toList_ofList (l := word.toList.map Char.toLower), ← lowerCase, split]
      simp
    obtain ⟨c, member, lower⟩ := List.mem_map.1 plus
    have symbol := symbols c member
    rw [← isSymbolChar_toLower, lower] at symbol
    exact absurd symbol (by decide)

private theorem isSymbolName_of_label (h : classify line = .ok (.label name)) (free : ¬IsReserved name) :
    IsSymbolName name := by
  obtain ⟨rest, parts⟩ := exists_labelParts?_of_classify h
  obtain ⟨start, symbols⟩ := symbol_of_labelParts? parts
  refine ⟨start, symbols, ?_, ?_, fun isPtr => free (.ptr isPtr)⟩
  · exact Register.ofIntel?_eq_none symbols fun r named => free (.register r named)
  · exact Size.ofKeyword?_eq_none_iff.2 fun named => free (.size named)

theorem IsSymbolName.readOperand_eq (h : IsSymbolName name) :
    readOperand name = .ok (.symbol name 0) := by
  rw [readOperand, h.scannedAs.tokens_eq]
  rfl

private theorem takeWhile_dropWhile_apart (symbols : ∀ c ∈ cs, isSymbolChar c)
    (apart : joins rest.head? = false) :
    (cs ++ rest).takeWhile isSymbolChar = cs ∧ (cs ++ rest).dropWhile isSymbolChar = rest := by
  have run : (cs ++ rest).takeWhile isSymbolChar = cs := by
    rw [takeWhile_apart (fun _ symbol => symbol) apart, List.takeWhile_eq_self_iff.2 symbols]
  refine ⟨run, ?_⟩
  rw [← drop_length_takeWhile, run, List.drop_left]

private theorem labelParts?_word (start : cs.head?.any isSymbolStart) (symbols : ∀ c ∈ cs, isSymbolChar c)
    (blanks : ∀ c ∈ gap, isBlank c) (oneLine : '\n' ∉ rest) :
    labelParts? (cs ++ (gap ++ ':' :: rest)) = some (cs, rest) := by
  obtain ⟨c, first, starts⟩ := (Option.any_eq_true _ _).1 start
  obtain ⟨tail, rfl⟩ := List.head?_eq_some_iff.1 first
  have apart : joins (gap ++ ':' :: rest).head? = false := by
    cases gap with
    | nil => rfl
    | cons d gap => exact isSymbolChar_of_isBlank (blanks d List.mem_cons_self)
  rw [List.forall_mem_cons] at symbols
  obtain ⟨run, behind⟩ := takeWhile_dropWhile_apart symbols.2 apart
  have colon : trimStart (gap ++ ':' :: rest) = ':' :: rest := by
    rw [trimStart_append blanks]
    exact List.dropWhile_cons_of_neg (by decide)
  simp [labelParts?, starts, run, behind, colon, oneLine]

private theorem lineContent_word (split : line.toList = front ++ (cs ++ (gap ++ [':']) ++ back))
    (some : cs ≠ []) (symbols : ∀ c ∈ cs, isSymbolChar c)
    (blanks : ∀ c ∈ front ++ gap ++ back, isBlank c) :
    lineContent line = cs ++ (gap ++ [':']) := by
  simp only [List.forall_mem_append] at blanks
  obtain ⟨⟨before, within⟩, after⟩ := blanks
  have plain : ∀ c ∈ line.toList, c ≠ '"' ∧ c ≠ '#' := by
    intro c member
    have kind : isBlank c ∨ isSymbolChar c ∨ c = ':' := by
      simp only [split, List.mem_append, List.mem_singleton] at member
      rcases member with inFront | (inWord | inGap | isColon) | inBack
      · exact .inl (before c inFront)
      · exact .inr (.inl (symbols c inWord))
      · exact .inl (within c inGap)
      · exact .inr (.inr isColon)
      · exact .inl (after c inBack)
    constructor <;> rintro rfl <;> revert kind <;> decide
  have uncommented : beforeComment .outside (line.toList ++ []) = line.toList ++ [] :=
    beforeComment_append plain
  rw [List.append_nil] at uncommented
  have whole : ∀ c ∈ cs, isBlank c = false := fun c member =>
    isBlank_of_isSymbolChar (symbols c member)
  have ends : trimEnd (cs ++ gap ++ [':']) = cs ++ gap ++ [':'] := trimEnd_word (by decide) (by simp)
  rw [lineContent, uncommented, split, trim, trimStart_append before, List.append_assoc,
    trimStart_word whole some, ← List.append_assoc, trimEnd_append_blanks after,
    ← List.append_assoc, ends]

private theorem classify_word (content : lineContent line = name.toList ++ (gap ++ [':']))
    (h : IsSymbolName name) (blanks : ∀ c ∈ gap, isBlank c) :
    classify line = .ok (.label name) := by
  have parts : labelParts? (lineContent line) = some (name.toList, []) :=
    content ▸ labelParts?_word h.start h.symbols blanks List.not_mem_nil
  have some : (lineContent line).isEmpty = false := by simp [content]
  simp [classify, classifyContent, some, parts]

private theorem exists_split_of_tokens (h : tokens line = [.ident name, .colon]) :
    ∃ front gap back, line.toList = front ++ (name.toList ++ (gap ++ [':']) ++ back) ∧
      ∀ c ∈ front ++ gap ++ back, isBlank c := by
  have scanned : scanTokens line.toList = [.ident name, .colon] := h
  obtain ⟨front, c, rest, before, split, isName, behind⟩ := exists_lexeme_of_scanTokens scanned
  obtain ⟨-, word⟩ := Token.ofLexeme_eq_ident isName
  obtain ⟨gap, d, back, within, split', isColon, nothing⟩ := exists_lexeme_of_scanTokens behind
  obtain rfl : ':' = d := List.singleton_inj.1 (Token.display_of_isMark isColon rfl)
  have after : ∀ c ∈ back, isBlank c := isBlank_of_scanFrom_eq_nil (List.map_eq_nil_iff.1 nothing)
  refine ⟨front, gap, back, ?_, ?_⟩
  · rw [split, word]
    conv_lhs => rw [← lexemeTail_append_drop c rest, split']
    simp
  · simp only [List.forall_mem_append]
    exact ⟨⟨before, within⟩, after⟩

theorem classify_of_tokens (h : tokens line = [.ident name, .colon]) :
    classify line = .ok (.label name) := by
  have member : .ident name ∈ tokens line := h ▸ List.mem_cons_self
  have isName : IsSymbolName name := isSymbolName_of_ident member
  obtain ⟨front, gap, back, split, blanks⟩ := exists_split_of_tokens h
  have some : name.toList ≠ [] := (isSymbolChar_of_ident member).1
  have content := lineContent_word split some isName.symbols blanks
  simp only [List.forall_mem_append] at blanks
  exact classify_word content isName blanks.1.2

private theorem IsSymbolName.tokens_colon (h : IsSymbolName name) :
    tokens (name ++ ":") = [.ident name, .colon] := by
  have colon : ClosedAs ":" [.colon] := closedAs_marks ":" (by decide)
  exact (h.scannedAs.closed colon ⟨':', rfl, by decide⟩).scannedAs.tokens_eq

/-- The name of a label is a symbol as an operand, unless operands use it for something else, and every
symbol is the label of a line. -/
theorem labels_are_operands :
    (∀ line name, classify line = .ok (.label name) → ¬IsReserved name →
      tokens name = [.ident name] ∧ readOperand name = .ok (.symbol name 0)) ∧
    (∀ text name, .ident name ∈ tokens text → classify (name ++ ":") = .ok (.label name)) ∧
    ∀ line name, tokens line = [.ident name, .colon] → classify line = .ok (.label name) := by
  refine ⟨fun line name read free => ?_, fun text name member => ?_,
    fun line name => classify_of_tokens⟩
  · have isName := isSymbolName_of_label read free
    exact ⟨isName.scannedAs.tokens_eq, isName.readOperand_eq⟩
  · have isName : IsSymbolName name := isSymbolName_of_ident member
    exact classify_of_tokens isName.tokens_colon

/-- There is no vector register with the number 32, so its name is free for a label. -/
theorem labels_are_operands_noRegister :
    (classify "XMM32 :\t# next" = .ok (.label "XMM32") ∧ ¬IsReserved "XMM32" ∧
      tokens "XMM32" = [.ident "XMM32"] ∧ readOperand "XMM32" = .ok (.symbol "XMM32" 0)) ∧
    (.ident "XMM32" ∈ tokens "[rip + XMM32]" ∧ classify "XMM32:" = .ok (.label "XMM32")) ∧
    tokens "\tXMM32 :" = [.ident "XMM32", .colon] ∧
      classify "\tXMM32 :" = .ok (.label "XMM32") := by
  obtain ⟨asOperand, asLabel, asLine⟩ := labels_are_operands
  have read : classify "XMM32 :\t# next" = .ok (.label "XMM32") := by decide +kernel
  have free : ¬IsReserved "XMM32" := by
    rintro (⟨r, named⟩ | named | named)
    · have known := Register.ofIntel?_of_name (.inl named)
      have unknown : Register.ofIntel? "XMM32" = none := by decide +kernel
      exact absurd (unknown.symm.trans known) nofun
    · exact absurd named (by decide)
    · exact absurd named (by decide)
  have member : .ident "XMM32" ∈ tokens "[rip + XMM32]" := by decide +kernel
  have scanned : tokens "\tXMM32 :" = [.ident "XMM32", .colon] := by decide +kernel
  exact ⟨⟨read, free, asOperand _ _ read free⟩, ⟨member, asLabel _ _ member⟩, scanned,
    asLine _ _ scanned⟩

end AsmTranslit
