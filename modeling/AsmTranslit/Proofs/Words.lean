import AsmTranslit.Proofs.InstructionLines

/-!
# Words

Texts of letters and digits alone.  Registers, numbers and mnemonics are written as words in Go source,
whatever the listing is.  For a mnemonic this rests on the catalog: its texts are gone through once, and
a rule only puts texts of the catalog, conditions and letters for sizes together.
-/

namespace AsmTranslit

/-- A text of letters and digits alone. -/
def IsWord (text : String) : Prop :=
  ∀ c ∈ text.toList, c.isAlphanum

instance (text : String) : Decidable (IsWord text) :=
  decidable_of_iff (text.toList.all Char.isAlphanum) List.all_eq_true

@[simp] theorem isWord_append {first second : String} :
    IsWord (first ++ second) ↔ IsWord first ∧ IsWord second := by
  simp [IsWord, or_imp, forall_and]

theorem isAlphanum_of_isDigit {c : Char} (digit : c.isDigit) : c.isAlphanum := by
  simp [Char.isAlphanum, digit]

theorem isWord_toString (n : Nat) : IsWord (toString n) := by
  intro c member
  rw [Nat.toString_eq_repr, Nat.toList_repr] at member
  exact isAlphanum_of_isDigit (Nat.isDigit_of_mem_toDigits (by decide) (by decide) member)

theorem GoRegister.isWord_name (r : GoRegister) : IsWord r.name := by
  have general : ∀ n, IsWord (GoRegister.general n).name := by decide +kernel
  have lowByte : ∀ n, IsWord (GoRegister.lowByte n).name := by decide +kernel
  have highByte : ∀ n, IsWord (GoRegister.highByte n).name := by decide +kernel
  have vector (width : VectorWidth) : ∀ n, IsWord (GoRegister.vector width n).name := by
    cases width <;> decide +kernel
  have mask : ∀ n, IsWord (GoRegister.mask n).name := by decide +kernel
  have segment : ∀ n, IsWord (GoRegister.segment n).name := by decide +kernel
  cases r with
  | general n => exact general n
  | lowByte n => exact lowByte n
  | highByte n => exact highByte n
  | vector width n => exact vector width n
  | mask n => exact mask n
  | segment n => exact segment n

def isWordByte (byte : UInt8) : Bool :=
  (Char.ofNat byte.toNat).isAlphanum

/-- A character all of whose bytes stand for letters or digits has one byte. -/
theorem isAlphanum_of_bytes {c : Char} (h : ∀ byte ∈ String.utf8EncodeChar c, isWordByte byte) :
    c.isAlphanum := by
  have noLarge : ∀ n < 256, 128 ≤ n → isWordByte (UInt8.ofNat n) = false := by decide +kernel
  have large {n : Nat} {rest : List UInt8} (word : ∀ byte ∈ UInt8.ofNat n :: rest, isWordByte byte)
      (low : 128 ≤ n) (high : n < 256) : False := by
    have first := word _ List.mem_cons_self
    rw [noLarge n high low] at first
    cases first
  unfold String.utf8EncodeChar at h
  dsimp only at h
  split_ifs at h with one
  · have first := h _ List.mem_cons_self
    rw [isWordByte, UInt8.toNat_ofNat', Nat.mod_eq_of_lt (by omega)] at first
    simpa using first
  all_goals exact (large h (by omega) (by omega)).elim

theorem isWord_of_bytes {text : String} (h : text.toByteArray.data.toList.all isWordByte) :
    IsWord text := by
  intro c member
  obtain ⟨front, back, split⟩ := List.append_of_mem member
  have parts : text = String.ofList front ++ (String.ofList [c] ++ String.ofList back) := by
    rw [← String.toList_inj, split]
    simp
  apply isAlphanum_of_bytes
  intro byte inChar
  apply List.all_eq_true.1 h
  rw [parts, String.toByteArray_append, String.toByteArray_append]
  simp only [ByteArray.data_append, Array.toList_append, List.mem_append]
  exact .inr (.inl (by simpa [List.utf8Encode] using inChar))

/-- The texts that a spelling is put together from, conditions and letters for sizes apart. -/
def Spelling.texts : Spelling → List String
  | fixed go => [go]
  | suffixed stem _ => [stem]
  | widths long quad => [long, quad]
  | _ => []

/-- The mnemonics and texts of the catalog have letters and digits for their bytes. -/
theorem bytes_of_mem_entries : ∀ entry ∈ Catalog.entries,
    ∀ text ∈ entry.1 :: entry.2.spelling.texts, text.toByteArray.data.toList.all isWordByte := by
  decide +kernel

/-- A rule that spells a mnemonic with words alone. -/
structure Rule.SpellsWords (rule : Rule) (mnemonic : String) : Prop where
  texts : ∀ text ∈ rule.spelling.texts, IsWord text
  same : rule.spelling = .same → IsWord mnemonic

variable {mnemonic : String} {hasVector : Bool} {rule : Rule}

private theorem spellsWords_conditionalRule? (h : conditionalRule? mnemonic = some rule) :
    rule.SpellsWords mnemonic := by
  revert h
  fun_cases conditionalRule? mnemonic with
  | case4 => simp
  | _ =>
    intro h
    obtain ⟨c, -, rfl⟩ := Option.map_eq_some_iff.1 h
    exact ⟨by simp [Spelling.texts], by simp⟩

private theorem spellsWords_find? (h : Rule.find? mnemonic hasVector = some rule) :
    rule.SpellsWords mnemonic := by
  revert h
  fun_cases Rule.find? mnemonic hasVector with
  | case4 =>
    intro h
    obtain listed | conditional := Option.or_eq_some_iff.1 h
    · have bytes := bytes_of_mem_entries _ (mem_entries_of_lookup listed)
      exact ⟨fun text inTexts => isWord_of_bytes (bytes text (List.mem_cons_of_mem _ inTexts)),
        fun _ => isWord_of_bytes (bytes mnemonic List.mem_cons_self)⟩
    · exact spellsWords_conditionalRule? conditional.2
  | _ =>
    intro h
    obtain rfl := Option.some.inj h
    exact ⟨by decide, fun _ => by decide⟩

private theorem isAlphanum_toUpper {c : Char} (h : c.isAlphanum) : c.toUpper.isAlphanum := by
  by_cases lower : 'a'.val ≤ c.val ∧ c.val ≤ 'z'.val
  · have letters : ∀ n < 123, 97 ≤ n → (Char.ofNat n).toUpper.isAlphanum := by decide +kernel
    have first : 97 ≤ c.toNat := UInt32.le_iff_toNat_le.1 lower.1
    have last : c.toNat ≤ 122 := UInt32.le_iff_toNat_le.1 lower.2
    simpa using letters c.toNat (by omega) first
  · rwa [Char.toUpper.eq_def, dif_neg lower]

private theorem isWord_upperCase {text : String} (word : IsWord text) : IsWord (upperCase text) := by
  intro c member
  rw [upperCase, String.toList_ofList] at member
  obtain ⟨lower, inText, rfl⟩ := List.mem_map.1 member
  exact isAlphanum_toUpper (word lower inText)

theorem isWord_sizeLetter {size : Size} {letter : String}
    (h : sizeLetter mnemonic size = .ok letter) : IsWord letter := by
  cases size <;> simp [sizeLetter, Size.goSuffix?] at h <;> subst h <;> decide

theorem isWord_knownSizeLetter {size : Option Size} {letter : String}
    (h : knownSizeLetter mnemonic size = .ok letter) : IsWord letter := by
  cases size with
  | none => simp [knownSizeLetter] at h
  | some size => exact isWord_sizeLetter h

theorem isWord_goName (condition : Condition) : IsWord condition.goName := by
  cases condition <;> decide

theorem Rule.SpellsWords.goMnemonic {operands : List Operand} {go : String}
    (words : rule.SpellsWords mnemonic) (h : rule.spelling.goMnemonic mnemonic operands = .ok go) :
    IsWord go := by
  obtain ⟨texts, same⟩ := words
  generalize rule.spelling = spelling at h texts same
  cases spelling with
  | same =>
    obtain rfl := Except.ok.inj h
    exact isWord_upperCase (same rfl)
  | fixed text =>
    obtain rfl := Except.ok.inj h
    exact texts _ (by simp [Spelling.texts])
  | suffixed stem default =>
    obtain ⟨letter, known, last⟩ := bind_eq_ok_iff.1 h
    obtain rfl := Except.ok.inj last
    have stemWord := texts stem (by simp [Spelling.texts])
    exact isWord_append.2 ⟨stemWord, isWord_knownSizeLetter known⟩
  | widths long quad =>
    simp only [Spelling.goMnemonic] at h
    split at h
    case h_1 =>
      obtain rfl := Except.ok.inj h
      exact texts _ (by simp [Spelling.texts])
    case h_2 =>
      obtain rfl := Except.ok.inj h
      exact texts _ (by simp [Spelling.texts])
    all_goals simp at h
  | extend signed =>
    simp only [Spelling.goMnemonic] at h
    split at h
    case h_1 =>
      obtain ⟨fromLetter, known, h⟩ := bind_eq_ok_iff.1 h
      obtain ⟨toLetter, known', last⟩ := bind_eq_ok_iff.1 h
      obtain rfl := Except.ok.inj last
      simp only [isWord_append, isWord_sizeLetter known, isWord_sizeLetter known']
      cases signed <;> decide
    case h_2 => simp at h
  | multiply =>
    obtain ⟨letter, known, last⟩ := bind_eq_ok_iff.1 h
    obtain rfl := Except.ok.inj last
    refine isWord_append.2 ⟨?_, isWord_knownSizeLetter known⟩
    split <;> decide
  | jump condition =>
    obtain rfl := Except.ok.inj h
    exact isWord_append.2 ⟨by decide, isWord_goName condition⟩
  | set condition =>
    obtain rfl := Except.ok.inj h
    exact isWord_append.2 ⟨by decide, isWord_goName condition⟩
  | move condition =>
    obtain ⟨letter, known, last⟩ := bind_eq_ok_iff.1 h
    obtain rfl := Except.ok.inj last
    simp only [isWord_append, isWord_knownSizeLetter known, isWord_goName, and_true]
    decide

/-- The Go mnemonic of every instruction that can be written is a word. -/
theorem Assembled.isWord {context : BodyContext} {isLast : Bool} {statement : Statement}
    {group : List GoLine} {selection : Selection} {modifier : Option GoPrefix}
    {operands : List Operand} {go : String}
    (parts : Assembled context isLast statement group selection modifier operands go) : IsWord go :=
  (spellsWords_find? (find?_of_selection parts.found)).goMnemonic parts.spelled

end AsmTranslit
