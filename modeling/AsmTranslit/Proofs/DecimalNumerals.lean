import AsmTranslit.Numeral
import AsmTranslit.Symbol
import Mathlib.Data.List.Induction

/-!
# Decimal numerals

Printing a number in decimal and reading the digits gives the number back, and a numeral without zeros
in front is the one that is printed for its value.
-/

namespace AsmTranslit

theorem digitValue?_of_isDigit {c : Char} (h : c.isDigit = true) :
    digitValue? c = some (c.toNat - '0'.toNat) := by
  have bounds : '0' ≤ c ∧ c ≤ '9' := by simpa [Char.isDigit, Char.le_def] using h
  simp [digitValue?, bounds]

theorem isDigitOf_ten_of_isDigit {c : Char} (h : c.isDigit = true) : isDigitOf 10 c = true := by
  have upper : c.toNat ≤ 57 := by
    have bounds := h
    simp only [Char.isDigit, Bool.and_eq_true, decide_eq_true_eq] at bounds
    exact bounds.2
  simp only [isDigitOf, digitValue?_of_isDigit h, Option.any_some, decide_eq_true_eq]
  have zero : '0'.toNat = 48 := rfl
  omega

private theorem isDigitOf_ten_iff {c : Char} : isDigitOf 10 c = true ↔ c.isDigit = true := by
  constructor
  · intro h
    rw [isDigitOf, Option.any_eq_true] at h
    obtain ⟨n, value, small⟩ := h
    rw [decide_eq_true_eq] at small
    rw [digitValue?] at value
    split at value
    case isTrue decimal => simpa [Char.isDigit, Char.le_def] using decimal
    case isFalse =>
      split at value
      case isTrue =>
        obtain rfl := Option.some.inj value
        omega
      case isFalse =>
        split at value
        case isTrue =>
          obtain rfl := Option.some.inj value
          omega
        case isFalse => cases value
  · exact isDigitOf_ten_of_isDigit

theorem isAlphanum_of_isDigitOf {radix : Nat} {c : Char} (h : isDigitOf radix c) : c.isAlphanum := by
  simp only [isDigitOf, digitValue?] at h
  have letters : ('0' ≤ c ∧ c ≤ '9') ∨ ('a' ≤ c ∧ c ≤ 'f') ∨ ('A' ≤ c ∧ c ≤ 'F') := by
    split_ifs at h with digit lower upper
    · exact .inl digit
    · exact .inr (.inl lower)
    · exact .inr (.inr upper)
    · cases h
  simp only [Char.le_def, UInt32.le_iff_toNat_le] at letters
  rw [isAlphanum_iff_toNat]
  simp at letters ⊢
  omega

/-- On digits the value of a numeral is the fold of the core library. -/
theorem numeralValue_ten_eq_ofDigitChars {cs : List Char} (h : ∀ c ∈ cs, c.isDigit = true) :
    numeralValue 10 cs = Nat.ofDigitChars 10 cs 0 := by
  suffices folds : ∀ n, cs.foldl (fun n c => n * 10 + (digitValue? c).getD 0) n =
      Nat.ofDigitChars 10 cs n from folds 0
  induction cs with
  | nil => simp
  | cons c cs ih =>
    intro n
    have digit := digitValue?_of_isDigit (h c (by simp))
    have later := ih (fun d hd => h d (by simp [hd]))
    rw [List.foldl_cons, later, Nat.ofDigitChars_cons, digit, Option.getD_some, Nat.mul_comm n]

theorem isDigit_of_mem_toDigits {n : Nat} {c : Char} (h : c ∈ Nat.toDigits 10 n) :
    c.isDigit = true :=
  Nat.isDigit_of_mem_toDigits (by decide) (by decide) h

@[simp] theorem readNumeral?_toDigits (n : Nat) : readNumeral? 10 (Nat.toDigits 10 n) = some n := by
  have digits : ∀ c ∈ Nat.toDigits 10 n, c.isDigit = true := fun c hc => isDigit_of_mem_toDigits hc
  have all : (Nat.toDigits 10 n).all (isDigitOf 10) = true :=
    List.all_eq_true.2 fun c hc => isDigitOf_ten_of_isDigit (digits c hc)
  simp [readNumeral?, all, numeralValue_ten_eq_ofDigitChars digits, Nat.toDigits_ne_nil]

theorem digitValue_lt {c : Char} (h : c.isDigit = true) : c.toNat - '0'.toNat < 10 := by
  have last : c.toNat ≤ 57 := (Char.isDigit_iff_toNat.1 h).2
  have zero : '0'.toNat = 48 := rfl
  omega

theorem digitChar_digitValue {c : Char} (h : c.isDigit = true) :
    Nat.digitChar (c.toNat - '0'.toNat) = c := by
  obtain ⟨first, last⟩ := Char.isDigit_iff_toNat.1 h
  apply Char.toNat_inj.1
  change 48 ≤ c.toNat at first
  change c.toNat ≤ 57 at last
  change (Nat.digitChar (c.toNat - 48)).toNat = c.toNat
  rw [Nat.toNat_digitChar_of_lt_ten (by omega)]
  omega

private theorem toDigits_numeralValue {cs : List Char} (digits : ∀ c ∈ cs, c.isDigit = true)
    (nonempty : cs ≠ []) (normal : cs.head? = some '0' → cs = ['0']) :
    Nat.toDigits 10 (numeralValue 10 cs) = cs := by
  induction cs using List.reverseRecOn with
  | nil => exact absurd rfl nonempty
  | append_singleton cs c ih =>
    have digit : c.isDigit = true := digits c (by simp)
    have small := digitValue_lt digit
    rw [numeralValue_concat, digitValue?_of_isDigit digit, Option.getD_some]
    cases cs with
    | nil =>
      rw [numeralValue_nil, Nat.zero_mul, Nat.zero_add, Nat.toDigits_of_lt_base small,
        digitChar_digitValue digit, List.nil_append]
    | cons d ds =>
      have noZero : d ≠ '0' := by
        rintro rfl
        simpa using normal rfl
      have before := ih (fun e member => digits e (List.mem_append_left _ member))
        (List.cons_ne_nil d ds) fun first => absurd (Option.some.inj first) noZero
      -- the digits in front have a value, or else they would be a single zero
      have positive : 0 < numeralValue 10 (d :: ds) := by
        rw [Nat.pos_iff_ne_zero]
        intro none
        rw [none] at before
        exact noZero (List.cons.inj before).1.symm
      have longer := Nat.toDigits_append_toDigits (by decide) positive small
      rw [before, Nat.toDigits_of_lt_base small, digitChar_digitValue digit] at longer
      rw [Nat.mul_comm, ← longer]

/-- The only printed numeral with a zero in front is that of zero. -/
theorem eq_zero_of_head?_toDigits {n : Nat} (h : (Nat.toDigits 10 n).head? = some '0') : n = 0 := by
  induction n using Nat.strongRecOn with
  | ind n ih =>
    by_cases small : n < 10
    · rw [Nat.toDigits_of_lt_base small, List.head?_cons] at h
      have value := Nat.toNat_digitChar_of_lt_ten small
      rw [Option.some.inj h] at value
      have zero : '0'.toNat = 48 := rfl
      omega
    · have positive : 0 < n / 10 := by omega
      have split := Nat.toDigits_append_toDigits (b := 10) (by decide) positive
        (Nat.mod_lt n (by decide))
      rw [Nat.div_add_mod] at split
      rw [← split, List.head?_append] at h
      cases first : (Nat.toDigits 10 (n / 10)).head? with
      | none => exact absurd (List.head?_eq_none_iff.1 first) Nat.toDigits_ne_nil
      | some c =>
        rw [first, Option.some_or] at h
        have none := ih (n / 10) (Nat.div_lt_self (by omega) (by decide)) (first.trans h)
        omega

theorem readNumeral?_eq_some_iff {cs : List Char} {n : Nat}
    (normal : cs.head? = some '0' → cs = ['0']) :
    readNumeral? 10 cs = some n ↔ cs = Nat.toDigits 10 n := by
  constructor
  · intro h
    rw [readNumeral?] at h
    split at h
    case isTrue digits =>
      obtain rfl := Option.some.inj h
      rw [Bool.and_eq_true, Bool.not_eq_true', List.isEmpty_eq_false_iff, List.all_eq_true] at digits
      exact (toDigits_numeralValue (fun c member => isDigitOf_ten_iff.1 (digits.2 c member))
        digits.1 normal).symm
    case isFalse => cases h
  · rintro rfl
    exact readNumeral?_toDigits n

end AsmTranslit
