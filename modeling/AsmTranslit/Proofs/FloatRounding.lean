import AsmTranslit.DataTable
import AsmTranslit.Proofs.BinaryRounding
import AsmTranslit.Proofs.DecimalNumerals
import Mathlib.Data.List.TakeDrop
import Mathlib.Data.List.TakeWhile

/-!
# Rounding of floating-point literals

The single-precision bits of a literal come from its double-precision number, which is itself rounded.
The numbers of the wider format include every midpoint of the narrower one, so a number is never moved
across a midpoint by the first rounding, but it may be moved onto one.  The second rounding then goes
to the even side, whichever side the number came from.  A literal gets the bits of the nearest single
except where it came from the other side.
-/

namespace AsmTranslit

namespace FloatFormat

variable {format narrow wide : FloatFormat} {x : ℚ} {p q : Nat}

/-- A number is on the odd side of a midpoint of the format: the pattern on that side is odd, so the
midpoint itself is rounded away from the number. -/
def IsOnOddSide (format : FloatFormat) (x middle : ℚ) : Prop :=
  ∃ k, middle = format.midpoint k ∧ if Even k then middle < x else x < middle

/-- Every number with few enough significant bits is one of the format's, whatever its scale. -/
theorem exists_units_eq {m : Nat} (s : Nat) (bound : m ≤ 2 * format.fractionBound) :
    ∃ pattern, format.units pattern = m * 2 ^ s := by
  induction s generalizing m with
  | zero => exact ⟨0 * format.fractionBound + m, units_mul_add (.inr rfl) bound⟩
  | succ s ih =>
    by_cases normal : format.fractionBound ≤ m
    · exact ⟨(s + 1) * format.fractionBound + m, units_mul_add (.inl normal) bound⟩
    · obtain ⟨pattern, units⟩ := ih (m := 2 * m) (by omega)
      exact ⟨pattern, by rw [units, Nat.pow_succ]; ring⟩

private theorem exists_value_eq_midpoint (some : 0 < narrow.precision)
    (precise : narrow.precision < wide.precision)
    (fine : narrow.unitExponent < wide.unitExponent) (k : Nat) :
    ∃ pattern, wide.value pattern = narrow.midpoint k := by
  obtain ⟨e, j, rfl, normal, bound⟩ := narrow.exists_mul_add k
  obtain ⟨finer, exponent⟩ := Nat.exists_eq_add_of_lt fine
  have fits : 2 * j + 1 ≤ 2 * wide.fractionBound := by
    have wider : 2 ^ (narrow.precision - 1 + 1) ≤ wide.fractionBound :=
      Nat.pow_le_pow_right (by decide) (by omega)
    rw [Nat.pow_succ] at wider
    have same : narrow.fractionBound = 2 ^ (narrow.precision - 1) := rfl
    omega
  obtain ⟨pattern, units⟩ := exists_units_eq (e + finer) fits
  refine ⟨pattern, ?_⟩
  rw [midpoint_mul_add normal bound, value, units, exponent]
  push_cast
  field_simp
  ring

private theorem roundsTo_midpoint (format : FloatFormat) (k : Nat) :
    format.RoundsTo (format.midpoint k) (if Even k then k else k + 1) := by
  have rounds := roundsTo_of_between (format.value_lt_midpoint k).le (format.midpoint_lt_value k)
  simpa using rounds

private theorem roundsTo_zero (small : x ≤ format.midpoint 0) : format.RoundsTo x 0 where
  low _ next := absurd next (Nat.succ_ne_zero _)
  high := small
  even_low _ next := absurd next (Nat.succ_ne_zero _)
  even_high _ := ⟨0, rfl⟩

section Twice

variable (midpoints : ∀ k, ∃ pattern, wide.value pattern = narrow.midpoint k)
include midpoints

theorem RoundsTo.value_le_midpoint {k : Nat} (h : wide.RoundsTo x q)
    (below : x ≤ narrow.midpoint k) : wide.value q ≤ narrow.midpoint k := by
  obtain ⟨pattern, same⟩ := midpoints k
  rw [← same] at below ⊢
  exact h.value_le below

theorem RoundsTo.midpoint_le_value {k : Nat} (h : wide.RoundsTo x q)
    (above : narrow.midpoint k ≤ x) : narrow.midpoint k ≤ wide.value q := by
  obtain ⟨pattern, same⟩ := midpoints k
  rw [← same] at above ⊢
  exact h.le_value above

/-- Rounding twice gives what rounding once gives, unless the first rounding goes onto a midpoint from
its odd side. -/
theorem RoundsTo.twice_iff (first : wide.RoundsTo x q) (second : narrow.RoundsTo (wide.value q) p) :
    narrow.RoundsTo x p ↔ ¬narrow.IsOnOddSide x (wide.value q) := by
  constructor
  · rintro once ⟨k, onto, side⟩
    rw [onto] at second side
    obtain rfl := second.unique (narrow.roundsTo_midpoint k)
    by_cases even : Even k
    · rw [if_pos even] at side once
      exact absurd once.high (not_le.2 side)
    · rw [if_neg even] at side once
      exact absurd (once.low k rfl) (not_le.2 side)
  · intro kept
    -- a number that left its side of a midpoint is now on the midpoint, and the pattern is even
    have low : ∀ below, below + 1 = p → narrow.midpoint below ≤ x := by
      intro below next
      by_contra beyond
      have less := lt_of_not_ge beyond
      have onto := le_antisymm (first.value_le_midpoint midpoints less.le) (second.low below next)
      have odd : ¬Even below := Nat.even_add_one.1 (next ▸ second.even_low below next onto)
      exact kept ⟨below, onto, by rwa [if_neg odd, onto]⟩
    have high : x ≤ narrow.midpoint p := by
      by_contra beyond
      have greater := lt_of_not_ge beyond
      have onto := le_antisymm second.high (first.midpoint_le_value midpoints greater.le)
      exact kept ⟨p, onto, by rwa [if_pos (second.even_high onto), onto]⟩
    have fixed {k : Nat} (tie : x = narrow.midpoint k) : wide.value q = narrow.midpoint k :=
      le_antisymm (first.value_le_midpoint midpoints tie.le)
        (first.midpoint_le_value midpoints tie.ge)
    exact ⟨low, high, fun below next tie => second.even_low below next (fixed tie),
      fun tie => second.even_high (fixed tie)⟩

end Twice

theorem binary32_last_midpoint :
    binary32.midpoint (binary32.infinity - 1) = 2 ^ 128 - 2 ^ 103 := by
  have normal : binary32.fractionBound ≤ 2 ^ 24 - 1 ∨ 253 = 0 := by decide
  have last := binary32.midpoint_mul_add normal (by decide)
  have pattern : 253 * binary32.fractionBound + (2 ^ 24 - 1) = binary32.infinity - 1 := rfl
  rw [pattern] at last
  rw [last, show binary32.unitExponent = 149 from rfl]
  norm_num

theorem binary64_last_midpoint :
    binary64.midpoint (binary64.infinity - 1) = (2 ^ 54 - 1) * 2 ^ 970 := by
  have normal : binary64.fractionBound ≤ 2 ^ 53 - 1 ∨ 2045 = 0 := by decide
  have last := binary64.midpoint_mul_add normal (by decide)
  have pattern : 2045 * binary64.fractionBound + (2 ^ 53 - 1) = binary64.infinity - 1 := rfl
  have powers : (2 : ℚ) ^ 2045 = 2 ^ 970 * 2 * 2 ^ 1074 := by rw [← pow_succ, ← pow_add]
  have unit : (2 : ℚ) ^ 1074 ≠ 0 := pow_ne_zero 1074 two_ne_zero
  rw [pattern, powers, show binary64.unitExponent = 1074 from rfl, div_right_comm, ← mul_assoc,
    mul_div_cancel_right₀ _ unit, ← mul_assoc, mul_div_cancel_right₀ _ two_ne_zero] at last
  rw [last]
  norm_num

theorem binary32_last_lt_binary64_last :
    binary32.midpoint (binary32.infinity - 1) < binary64.midpoint (binary64.infinity - 1) := by
  have greater : (2 : ℚ) ^ 128 ≤ 2 ^ 970 := pow_le_pow_right₀ (by norm_num) (by norm_num)
  rw [binary32_last_midpoint, binary64_last_midpoint]
  generalize (2 : ℚ) ^ 970 = scale at greater ⊢
  norm_num at greater ⊢
  linarith

private theorem binary64_first_midpoint : binary64.midpoint 0 = 1 / 2 ^ 1075 := by
  have first := binary64.midpoint_mul_add (e := 0) (j := 0) (.inr rfl) (by decide)
  rw [Nat.zero_mul, Nat.add_zero, show binary64.unitExponent = 1074 from rfl] at first
  rw [first, pow_succ' (2 : ℚ) 1074, div_div]
  norm_num only

end FloatFormat

open FloatFormat

/-- The number that a magnitude stands for, if it is finite. -/
def FloatMagnitude.number? : FloatMagnitude → Option ℚ
  | decimal digits _ exponent => some (digits * 10 ^ exponent)
  | infinity => none
  | notANumber => none

private theorem numeralValue_ten_lt {cs : List Char} (digits : ∀ c ∈ cs, c.isDigit = true) :
    numeralValue 10 cs < 10 ^ cs.length := by
  induction cs using List.reverseRecOn with
  | nil => exact Nat.one_pos
  | append_singleton cs c ih =>
    have small := digitValue_lt (digits c (by simp))
    have before := ih fun d member => digits d (List.mem_append_left _ member)
    rw [numeralValue_concat, digitValue?_of_isDigit (digits c (by simp)), Option.getD_some,
      List.length_append, List.length_singleton, Nat.pow_succ]
    omega

private theorem isDigit_of_mem_fractionDigits {cs : List Char} {c : Char}
    (member : c ∈ (fractionDigits cs).1) : c.isDigit = true := by
  unfold fractionDigits at member
  split at member
  · simp only [List.span_eq_takeWhile_dropWhile] at member
    exact List.mem_takeWhile_imp member
  · cases member

private theorem lt_of_readDecimal? {cs : List Char} {digits places : Nat} {exponent : Int}
    (read : readDecimal? cs = some (.decimal digits places exponent)) : digits < 10 ^ places := by
  unfold readDecimal? at read
  simp only [List.span_eq_takeWhile_dropWhile] at read
  split at read
  · cases read
  · obtain ⟨power, -, same⟩ := Option.map_eq_some_iff.1 read
    cases same
    refine numeralValue_ten_lt fun c member => ?_
    obtain whole | fraction := List.mem_append.1 member
    · exact List.mem_takeWhile_imp whole
    · exact isDigit_of_mem_fractionDigits fraction

private theorem lt_of_readFloat? {text : String} {literal : FloatLiteral} {digits places : Nat}
    {exponent : Int} (read : readFloat? text = some literal)
    (decimal : literal.magnitude = .decimal digits places exponent) : digits < 10 ^ places := by
  have unsigned : ∃ cs, readFloatMagnitude? cs = some (.decimal digits places exponent) := by
    unfold readFloat? at read
    split at read <;>
      obtain ⟨magnitude, found, rfl⟩ := Option.map_eq_some_iff.1 read <;>
      exact ⟨_, found.trans (congrArg some decimal)⟩
  obtain ⟨cs, found⟩ := unsigned
  unfold readFloatMagnitude? at found
  split at found
  · cases found
  · cases found
  · cases found
  · exact lt_of_readDecimal? found

private theorem ten_zpow (exponent : Int) :
    (10 : ℚ) ^ exponent = 10 ^ exponent.toNat / 10 ^ (-exponent).toNat := by
  obtain ⟨n, rfl | rfl⟩ := exponent.eq_nat_or_neg <;> simp

private theorem ten_zpow_le_first_midpoint : (10 : ℚ) ^ (-324 : Int) ≤ binary64.midpoint 0 := by
  have powers : 2 ^ 1075 ≤ 10 ^ 324 := by decide +kernel
  rw [binary64_first_midpoint, zpow_neg, one_div]
  exact inv_anti₀ (by positivity) (by exact_mod_cast powers)

private theorem last_midpoint_le_ten_zpow :
    binary64.midpoint (binary64.infinity - 1) ≤ (10 : ℚ) ^ (309 : Int) := by
  have powers : 2 ^ 1024 ≤ 10 ^ 309 := by decide +kernel
  have cast : (2 : ℚ) ^ 1024 ≤ 10 ^ 309 := by exact_mod_cast powers
  calc binary64.midpoint (binary64.infinity - 1) = (2 ^ 54 - 1) * 2 ^ 970 := binary64_last_midpoint
    _ ≤ 2 ^ 54 * 2 ^ 970 := mul_le_mul_of_nonneg_right (by norm_num) (by positivity)
    _ = 2 ^ 1024 := (pow_add 2 54 970).symm
    _ ≤ 10 ^ (309 : Int) := cast

private theorem roundsTo_decimal {digits places : Nat} {exponent : Int} (fits : digits < 10 ^ places)
    (below : (digits * 10 ^ exponent : ℚ) < binary64.midpoint (binary64.infinity - 1)) :
    binary64.RoundsTo (digits * 10 ^ exponent)
      (FloatMagnitude.decimal digits places exponent).pattern := by
  have ten : (1 : ℚ) ≤ 10 := by norm_num
  have power : (0 : ℚ) < 10 ^ exponent := zpow_pos (by norm_num) exponent
  rw [FloatMagnitude.pattern]
  split
  case isTrue tiny =>
    have least : (digits * 10 ^ exponent : ℚ) ≤ 10 ^ (-324 : Int) := by
      obtain rfl | small := tiny
      · rw [Nat.cast_zero, zero_mul]
        exact zpow_nonneg (by norm_num) _
      · have digit : (digits : ℚ) ≤ 10 ^ (places : Int) := by exact_mod_cast fits.le
        calc (digits * 10 ^ exponent : ℚ) ≤ 10 ^ (places : Int) * 10 ^ exponent :=
              mul_le_mul_of_nonneg_right digit power.le
          _ = 10 ^ (places + exponent) := (zpow_add₀ (by norm_num) _ _).symm
          _ ≤ 10 ^ (-324 : Int) := zpow_le_zpow_right₀ ten small
    exact roundsTo_zero (least.trans ten_zpow_le_first_midpoint)
  case isFalse other =>
    have nonzero : digits ≠ 0 := fun none => other (.inl none)
    have moderate : ¬309 ≤ exponent := by
      intro great
      have digit : (1 : ℚ) ≤ digits := by exact_mod_cast Nat.pos_of_ne_zero nonzero
      refine absurd below (not_lt.2 ?_)
      calc binary64.midpoint (binary64.infinity - 1) ≤ 10 ^ (309 : Int) := last_midpoint_le_ten_zpow
        _ ≤ 10 ^ exponent := zpow_le_zpow_right₀ ten great
        _ ≤ digits * 10 ^ exponent := le_mul_of_one_le_left power.le digit
    rw [if_neg moderate]
    have ratio : (digits * 10 ^ exponent : ℚ) =
        (digits * 10 ^ exponent.toNat * 2 ^ binary64.unitExponent : Nat) /
          (10 ^ (-exponent).toNat : Nat) / 2 ^ binary64.unitExponent := by
      rw [ten_zpow]
      push_cast
      field_simp
    rw [ratio] at below ⊢
    exact roundsTo_nearest (by decide) (by decide) (Nat.pow_pos (by decide)) below.le

private theorem FloatLiteral.roundsTo_pattern {text : String} {x : ℚ} (literal : FloatLiteral)
    (read : readFloat? text = some literal) (number : literal.magnitude.number? = some x)
    (below : x < binary64.midpoint (binary64.infinity - 1)) :
    binary64.RoundsTo x literal.magnitude.pattern := by
  cases magnitude : literal.magnitude with
  | decimal digits places exponent =>
    rw [magnitude] at number
    obtain rfl := Option.some.inj number
    exact roundsTo_decimal (lt_of_readFloat? read magnitude) below
  | infinity => rw [magnitude] at number; cases number
  | notANumber => rw [magnitude] at number; cases number

private theorem roundsTo_narrow {double : Nat}
    (below : binary64.value double ≤ binary32.midpoint (binary32.infinity - 1)) :
    binary32.RoundsTo (binary64.value double) (narrow double) := by
  have finite : double < binary64.infinity := by
    have last := binary64.midpoint_lt_value (binary64.infinity - 1)
    exact binary64.value_strictMono.lt_iff_lt.1
      ((below.trans_lt binary32_last_lt_binary64_last).trans last)
  have ratio : binary64.value double = binary64.units double /
      (2 ^ (binary64.unitExponent - binary32.unitExponent) : Nat) / 2 ^ binary32.unitExponent := by
    have split : binary64.unitExponent - binary32.unitExponent + binary32.unitExponent =
      binary64.unitExponent := rfl
    rw [value, Nat.cast_pow, Nat.cast_ofNat, div_div, ← pow_add, split]
  rw [narrow, if_pos finite]
  rw [ratio] at below ⊢
  exact roundsTo_nearest (by decide) (by decide) (Nat.two_pow_pos _) below

private theorem sign_add_lt {format : FloatFormat} {pattern : Nat} (negative : Bool)
    (bounded : pattern ≤ format.infinity) :
    (if negative then format.signWeight else 0) + pattern < 2 * format.signWeight := by
  have fewer : format.infinity < format.signWeight :=
    Nat.mul_lt_mul_of_pos_right (Nat.sub_lt (Nat.two_pow_pos _) Nat.one_pos)
      format.fractionBound_pos
  split <;> omega

theorem binary64_midpoints (k : Nat) : ∃ double, binary64.value double = binary32.midpoint k :=
  exists_value_eq_midpoint (by decide) (by decide) (by decide) k

theorem binary32_midpoint_one : binary32.midpoint 0x3f800000 = 1 + 1 / 2 ^ 24 := by
  have middle := binary32.midpoint_eq_div (e := 126) (j := 2 ^ 23) (s := 23)
    (.inl le_rfl) (by decide) rfl
  exact middle.trans (by norm_num)

private theorem value_eq_midpoint_one :
    binary64.value 0x3ff0000010000000 = binary32.midpoint 0x3f800000 := by
  have double := binary64.value_eq_div (e := 1022) (j := 2 ^ 52 + 2 ^ 28) (s := 52)
    (.inl (by decide)) (by decide) rfl
  rw [binary32_midpoint_one]
  exact double.trans (by norm_num)

private theorem roundsTo_midpoint_one : binary64.RoundsTo 1.0000000596046448 0x3ff0000010000000 := by
  have before := binary64.midpoint_eq_div (e := 1022) (j := 2 ^ 52 + 2 ^ 28 - 1) (s := 52)
    (.inl (by decide)) (by decide) rfl
  have after := binary64.midpoint_eq_div (e := 1022) (j := 2 ^ 52 + 2 ^ 28) (s := 52)
    (.inl (by decide)) (by decide) rfl
  refine roundsTo_of_lt_of_lt (before.trans_lt ?_) (LT.lt.trans_eq ?_ after.symm)
  · norm_num
  · norm_num

theorem roundsTo_second_single : binary32.RoundsTo 1.0000000596046448 0x3f800001 := by
  have after := binary32.midpoint_eq_div (e := 126) (j := 2 ^ 23 + 1) (s := 23)
    (.inl (by decide)) (by decide) rfl
  refine roundsTo_of_lt_of_lt (binary32_midpoint_one.trans_lt ?_) (LT.lt.trans_eq ?_ after.symm)
  · norm_num
  · norm_num

/-- A single-precision item holds the bits of the single that is nearest to its literal's number, unless
the nearest double is in the middle of two singles and the number on the odd side of it. -/
theorem floatItem_nearest_iff {argument : String} {literal : FloatLiteral} {x : ℚ}
    (read : readFloat? argument = some literal) (number : literal.magnitude.number? = some x)
    (finite : x < binary32.midpoint (binary32.infinity - 1)) :
    ∃ item double single, floatItem true argument = .ok item ∧ item.width = .four ∧
      item.value.toNat = (if literal.negative then binary32.signWeight else 0) + single ∧
      single ≤ binary32.infinity ∧ binary64.IsNearest x double ∧
      binary32.RoundsTo (binary64.value double) single ∧
      (binary32.IsNearest x single ↔ ¬binary32.IsOnOddSide x (binary64.value double)) := by
  have finite64 := finite.trans binary32_last_lt_binary64_last
  have first := literal.roundsTo_pattern read number finite64
  have middle := first.value_le_midpoint binary64_midpoints finite.le
  have second := roundsTo_narrow middle
  have bounded : narrow literal.magnitude.pattern ≤ binary32.infinity :=
    second.le_of_le_midpoint middle
  refine ⟨⟨.four, BitVec.ofNat _ literal.bits32⟩, literal.magnitude.pattern,
    narrow literal.magnitude.pattern, ?_, rfl, ?_, bounded, ?_, second, ?_⟩
  · rw [floatItem, read]
    rfl
  · exact Nat.mod_eq_of_lt (sign_add_lt literal.negative bounded)
  · exact (isNearest_iff_roundsTo (by decide) finite64).2 first
  · rw [isNearest_iff_roundsTo (by decide) finite]
    exact first.twice_iff binary64_midpoints second

/-- A literal beyond the middle of one and the next single is not given the nearest one. -/
theorem floatItem_nearest_iff_odd_side :
    readFloat? "1.0000000596046448" = some ⟨false, .decimal 10000000596046448 17 (-16)⟩ ∧
      ∃ item, floatItem true "1.0000000596046448" = .ok item ∧
        ¬binary32.IsNearest 1.0000000596046448 item.value.toNat := by
  have read : readFloat? "1.0000000596046448" =
      some ⟨false, .decimal 10000000596046448 17 (-16)⟩ := by decide +kernel
  have number : (FloatMagnitude.decimal 10000000596046448 17 (-16)).number? =
      some 1.0000000596046448 := by norm_num [FloatMagnitude.number?]
  have finite : (1.0000000596046448 : ℚ) < binary32.midpoint (binary32.infinity - 1) := by
    rw [binary32_last_midpoint]
    norm_num
  obtain ⟨item, double, single, defined, -, bits, -, nearest, -, missed⟩ :=
    floatItem_nearest_iff read number finite
  refine ⟨read, item, defined, ?_⟩
  have unsigned : item.value.toNat = single := bits.trans (Nat.zero_add single)
  obtain rfl := (nearest.roundsTo (finite.trans binary32_last_lt_binary64_last)).unique
    roundsTo_midpoint_one
  rw [unsigned, missed, not_not, value_eq_midpoint_one]
  refine ⟨0x3f800000, rfl, ?_⟩
  rw [if_pos (by decide), binary32_midpoint_one]
  norm_num

/-- The literal is emitted as one, although the next single is the nearest. -/
theorem second_single_missed :
    floatItem true "1.0000000596046448" = .ok ⟨.four, 0x3f800000⟩ ∧
      binary32.IsNearest 1.0000000596046448 0x3f800001 ∧
      ¬binary32.IsNearest 1.0000000596046448 0x3f800000 := by
  refine ⟨by decide +kernel, roundsTo_second_single.isNearest (by decide), fun first => ?_⟩
  have finite : (1.0000000596046448 : ℚ) < binary32.midpoint (binary32.infinity - 1) := by
    rw [binary32_last_midpoint]
    norm_num
  exact absurd ((first.roundsTo finite).unique roundsTo_second_single) (by decide)

end AsmTranslit
