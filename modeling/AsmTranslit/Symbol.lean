/-!
# Symbols

The alphabet of symbols in a listing, letter case, and the symbol that names a data label in Go
assembler source.  A symbol starts with a letter, `_`, `.` or `$`; digits and `@` may follow.
-/

namespace AsmTranslit

def isSymbolStart (c : Char) : Bool :=
  c.isAlpha || c == '_' || c == '.' || c == '$'

def isSymbolChar (c : Char) : Bool :=
  c.isAlphanum || c == '_' || c == '.' || c == '$' || c == '@'

def lowerCase (s : String) : String :=
  String.ofList (s.toList.map Char.toLower)

def upperCase (s : String) : String :=
  String.ofList (s.toList.map Char.toUpper)

/-- A character that Go symbols accept stays; any other becomes an underscore. -/
def goSymbolChar (c : Char) : Char :=
  if c.isAlphanum || c == '_' then c else '_'

/-- The file-local Go symbol of a data label: no leading dots, only letters, digits and
underscores, and the suffix that keeps it local. -/
def goSymbol (label : String) : String :=
  String.ofList ((label.toList.dropWhile (· == '.')).map goSymbolChar) ++ "<>"

theorem isAlphanum_iff_toNat {c : Char} :
    c.isAlphanum ↔ (65 ≤ c.toNat ∧ c.toNat ≤ 90) ∨ (97 ≤ c.toNat ∧ c.toNat ≤ 122) ∨
      (48 ≤ c.toNat ∧ c.toNat ≤ 57) := by
  have within (first last : Char) :
      (c.val ≥ first.val ∧ c.val ≤ last.val) ↔ first.toNat ≤ c.toNat ∧ c.toNat ≤ last.toNat := by
    rw [ge_iff_le, UInt32.le_iff_toNat_le, UInt32.le_iff_toNat_le]
    rfl
  have upper : c.isUpper ↔ 65 ≤ c.toNat ∧ c.toNat ≤ 90 := decide_eq_true_iff.trans (within 'A' 'Z')
  have lower : c.isLower ↔ 97 ≤ c.toNat ∧ c.toNat ≤ 122 := by
    refine Iff.trans ?_ (within 'a' 'z')
    exact Bool.and_eq_true_iff.trans (and_congr decide_eq_true_iff decide_eq_true_iff)
  have digit : c.isDigit ↔ 48 ≤ c.toNat ∧ c.toNat ≤ 57 := Char.isDigit_iff_toNat
  have split : c.isAlphanum = (c.isUpper || c.isLower || c.isDigit) := rfl
  rw [split, Bool.or_eq_true, Bool.or_eq_true, upper, lower, digit, or_assoc]

theorem isSymbolChar_of_isSymbolStart {c : Char} (h : isSymbolStart c = true) :
    isSymbolChar c = true := by
  simp only [isSymbolStart, Bool.or_eq_true] at h
  simp only [isSymbolChar, Char.isAlphanum, Bool.or_eq_true]
  rcases h with ((h | h) | h) | h <;> simp [h]

end AsmTranslit
