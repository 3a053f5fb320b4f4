import AsmTranslit.BinaryFloat
import Mathlib.Algebra.Order.Field.Basic
import Mathlib.Algebra.Order.Ring.Rat
import Mathlib.Algebra.Ring.Parity
import Mathlib.Order.Monotone.Basic
import Mathlib.Tactic.FieldSimp
import Mathlib.Tactic.Linarith
import Mathlib.Tactic.NormNum
import Mathlib.Tactic.Positivity
import Mathlib.Tactic.Ring

/-!
# Rounding to a binary format

The numbers that patterns stand for, as exact rationals, and what it is to be the nearest of them.
Patterns are ordered like their numbers, so a number is rounded to a pattern exactly if it lies between
the midpoints on both sides of the pattern's number, and on a midpoint only if the pattern is even.
The rounding of ratios in natural numbers meets this description, and rounding leaves a number on its
side of every number of the format.
-/

namespace AsmTranslit.FloatFormat

variable {format : FloatFormat} {x y : ℚ} {p q : Nat}

/-- The number that a finite pattern stands for; the pattern of infinity is given the number that would
follow the finite ones. -/
def value (format : FloatFormat) (pattern : Nat) : ℚ :=
  format.units pattern / 2 ^ format.unitExponent

/-- The number halfway between that of a pattern and that of the next one. -/
def midpoint (format : FloatFormat) (pattern : Nat) : ℚ :=
  (format.value pattern + format.value (pattern + 1)) / 2

/-- A finite pattern whose number is nearest to a number that is not negative.  Where another one is as
near, the pattern is even. -/
structure IsNearest (format : FloatFormat) (x : ℚ) (pattern : Nat) : Prop where
  finite : pattern < format.infinity
  nearest : ∀ other < format.infinity, |x - format.value pattern| ≤ |x - format.value other|
  even : ∀ other < format.infinity, other ≠ pattern →
    |x - format.value pattern| = |x - format.value other| → Even pattern

/-- A pattern, not bounded by infinity, between whose midpoints a number lies, on a midpoint only if the
pattern is even. -/
structure RoundsTo (format : FloatFormat) (x : ℚ) (pattern : Nat) : Prop where
  low : ∀ below, below + 1 = pattern → format.midpoint below ≤ x
  high : x ≤ format.midpoint pattern
  even_low : ∀ below, below + 1 = pattern → x = format.midpoint below → Even pattern
  even_high : x = format.midpoint pattern → Even pattern

theorem fractionBound_pos (format : FloatFormat) : 0 < format.fractionBound :=
  Nat.two_pow_pos _

/-- A significand that is scaled by a power of two, as a pattern.  The significand may be the first of
the next greater power. -/
theorem units_mul_add {e j : Nat} (normal : format.fractionBound ≤ j ∨ e = 0)
    (bound : j ≤ 2 * format.fractionBound) :
    format.units (e * format.fractionBound + j) = j * 2 ^ e := by
  have positive := format.fractionBound_pos
  have split := Nat.div_add_mod' j format.fractionBound
  have small := Nat.mod_lt j positive
  generalize j / format.fractionBound = whole at split
  generalize j % format.fractionBound = rest at split small
  have exponent : (e * format.fractionBound + j) / format.fractionBound = e + whole := by
    rw [← split, ← Nat.add_assoc, ← Nat.add_mul, Nat.mul_comm, Nat.mul_add_div positive,
      Nat.div_eq_of_lt small, Nat.add_zero]
  have fraction : (e * format.fractionBound + j) % format.fractionBound = rest := by
    rw [← split, ← Nat.add_assoc, ← Nat.add_mul, Nat.mul_comm, Nat.mul_add_mod,
      Nat.mod_eq_of_lt small]
  rw [units, exponent, fraction]
  -- the significand is below the leading bit, or has it, or is the next one with another bit
  obtain rfl | rfl | rfl | more : whole = 0 ∨ whole = 1 ∨ whole = 2 ∨ 3 ≤ whole := by omega
  · obtain rfl : e = 0 := normal.resolve_left (by omega)
    simp [← split]
  · simp [← split, Nat.add_comm]
  · obtain rfl : rest = 0 := by omega
    simp [← split]
    ring
  · have tooMuch := Nat.mul_le_mul_right format.fractionBound more
    omega

/-- Every pattern is a significand that is scaled. -/
theorem exists_mul_add (format : FloatFormat) (pattern : Nat) :
    ∃ e j, pattern = e * format.fractionBound + j ∧ (format.fractionBound ≤ j ∨ e = 0) ∧
      j + 1 ≤ 2 * format.fractionBound := by
  have small := Nat.mod_lt pattern format.fractionBound_pos
  have split := Nat.div_add_mod' pattern format.fractionBound
  cases exponent : pattern / format.fractionBound with
  | zero =>
    rw [exponent] at split
    exact ⟨0, pattern % format.fractionBound, split.symm, .inr rfl, by omega⟩
  | succ e =>
    rw [exponent, Nat.add_mul, Nat.one_mul, Nat.add_assoc] at split
    exact ⟨e, format.fractionBound + pattern % format.fractionBound, split.symm,
      .inl (Nat.le_add_right _ _), by omega⟩

private theorem units_lt_units_succ (format : FloatFormat) (pattern : Nat) :
    format.units pattern < format.units (pattern + 1) := by
  obtain ⟨e, j, rfl, normal, bound⟩ := format.exists_mul_add pattern
  rw [units_mul_add normal (Nat.le_of_succ_le bound), Nat.add_assoc,
    units_mul_add (normal.imp_left Nat.le_succ_of_le) bound]
  exact Nat.mul_lt_mul_of_pos_right (Nat.lt_succ_self j) (Nat.two_pow_pos e)

theorem value_strictMono (format : FloatFormat) : StrictMono format.value := by
  have units : StrictMono format.units := strictMono_nat_of_lt_succ format.units_lt_units_succ
  intro p q less
  have positive : (0 : ℚ) < 2 ^ format.unitExponent := by positivity
  exact div_lt_div_of_pos_right (Nat.cast_lt.2 (units less)) positive

theorem value_lt_midpoint (format : FloatFormat) (pattern : Nat) :
    format.value pattern < format.midpoint pattern := by
  have next := format.value_strictMono (Nat.lt_succ_self pattern)
  rw [midpoint]
  linarith

theorem midpoint_lt_value (format : FloatFormat) (pattern : Nat) :
    format.midpoint pattern < format.value (pattern + 1) := by
  have next := format.value_strictMono (Nat.lt_succ_self pattern)
  rw [midpoint]
  linarith

theorem midpoint_strictMono (format : FloatFormat) : StrictMono format.midpoint :=
  strictMono_nat_of_lt_succ fun pattern =>
    (format.midpoint_lt_value pattern).trans (format.value_lt_midpoint (pattern + 1))

theorem nearer_low_iff {a b : ℚ} (less : a < b) : |x - a| ≤ |x - b| ↔ x ≤ (a + b) / 2 := by
  have squares : (x - b) ^ 2 - (x - a) ^ 2 = 2 * (b - a) * ((a + b) / 2 - x) := by ring
  have positive : 0 < 2 * (b - a) := by linarith
  rw [← sq_le_sq, ← sub_nonneg, squares, mul_nonneg_iff_of_pos_left positive, sub_nonneg]

theorem nearer_high_iff {a b : ℚ} (less : a < b) : |x - b| ≤ |x - a| ↔ (a + b) / 2 ≤ x := by
  have squares : (x - a) ^ 2 - (x - b) ^ 2 = 2 * (b - a) * (x - (a + b) / 2) := by ring
  have positive : 0 < 2 * (b - a) := by linarith
  rw [← sq_le_sq, ← sub_nonneg, squares, mul_nonneg_iff_of_pos_left positive, sub_nonneg]

private theorem RoundsTo.le_of_lt_midpoint {last : Nat} (h : format.RoundsTo x p)
    (below : x < format.midpoint last) : p ≤ last := by
  by_contra beyond
  obtain ⟨more, rfl⟩ := Nat.exists_eq_add_of_lt (Nat.lt_of_not_le beyond)
  have order := format.midpoint_strictMono.monotone (Nat.le_add_right last more)
  exact absurd (h.low (last + more) rfl) (not_le.2 (below.trans_le order))

/-- A number that lies between the midpoints on both sides of a pattern is on the pattern's side of the
middle of the pattern and any other one. -/
theorem RoundsTo.sides (h : format.RoundsTo x p) :
    (∀ q < p, (format.value q + format.value p) / 2 ≤ x) ∧
      ∀ q, p < q → x ≤ (format.value p + format.value q) / 2 := by
  constructor
  · intro q less
    obtain ⟨more, rfl⟩ := Nat.exists_eq_add_of_lt less
    have order := format.value_strictMono.monotone (Nat.le_add_right q more)
    have low := h.low (q + more) rfl
    rw [midpoint] at low
    linarith
  · intro q less
    have order := format.value_strictMono.monotone (Nat.succ_le_of_lt less)
    have high := h.high
    rw [midpoint] at high
    linarith

theorem RoundsTo.isNearest (h : format.RoundsTo x p) (finite : p < format.infinity) :
    format.IsNearest x p where
  finite := finite
  nearest q _ := by
    obtain ⟨above, below⟩ := h.sides
    obtain less | rfl | greater := Nat.lt_trichotomy q p
    · exact (nearer_high_iff (format.value_strictMono less)).2 (above q less)
    · exact le_rfl
    · exact (nearer_low_iff (format.value_strictMono greater)).2 (below q greater)
  even q _ other same := by
    obtain less | greater := Nat.lt_or_gt_of_ne other
    · obtain ⟨more, rfl⟩ := Nat.exists_eq_add_of_lt less
      have middle := (nearer_low_iff (format.value_strictMono less)).1 same.ge
      have order := format.value_strictMono.monotone (Nat.le_add_right q more)
      refine h.even_low (q + more) rfl (le_antisymm ?_ (h.low (q + more) rfl))
      rw [midpoint]
      linarith
    · have middle := (nearer_high_iff (format.value_strictMono greater)).1 same.ge
      have order := format.value_strictMono.monotone (Nat.succ_le_of_lt greater)
      refine h.even_high (le_antisymm h.high ?_)
      rw [midpoint]
      linarith

theorem IsNearest.roundsTo (h : format.IsNearest x p)
    (below : x < format.midpoint (format.infinity - 1)) : format.RoundsTo x p where
  low before next := by
    subst next
    have less := format.value_strictMono (Nat.lt_succ_self before)
    exact (nearer_high_iff less).1 (h.nearest before (Nat.lt_of_succ_lt h.finite))
  high := by
    have less := format.value_strictMono (Nat.lt_succ_self p)
    by_cases finite : p + 1 < format.infinity
    · exact (nearer_low_iff less).1 (h.nearest (p + 1) finite)
    · obtain rfl : p = format.infinity - 1 := by
        have := h.finite
        omega
      exact below.le
  even_low before next tie := by
    subst next
    have less := format.value_strictMono (Nat.lt_succ_self before)
    refine h.even before (Nat.lt_of_succ_lt h.finite) (Nat.ne_of_lt (Nat.lt_succ_self before)) ?_
    exact le_antisymm ((nearer_high_iff less).2 tie.ge) ((nearer_low_iff less).2 tie.le)
  even_high tie := by
    have less := format.value_strictMono (Nat.lt_succ_self p)
    have finite : p + 1 < format.infinity := by
      by_contra last
      obtain rfl : p = format.infinity - 1 := by
        have := h.finite
        omega
      exact absurd tie below.ne
    refine h.even (p + 1) finite (Nat.succ_ne_self p) ?_
    exact le_antisymm ((nearer_low_iff less).2 tie.le) ((nearer_high_iff less).2 tie.ge)

/-- Below the numbers that are rounded to infinity, the two descriptions of the nearest number agree. -/
theorem isNearest_iff_roundsTo (some : 0 < format.infinity)
    (below : x < format.midpoint (format.infinity - 1)) :
    format.IsNearest x p ↔ format.RoundsTo x p := by
  refine ⟨fun h => h.roundsTo below, fun h => h.isNearest ?_⟩
  have last := h.le_of_lt_midpoint below
  omega

theorem RoundsTo.not_lt (h : format.RoundsTo x p) (h' : format.RoundsTo x q) : ¬p < q := by
  intro less
  obtain ⟨more, rfl⟩ := Nat.exists_eq_add_of_lt less
  -- the number is on the only midpoint between the two patterns, of which one is odd
  have order := format.midpoint_strictMono.monotone (Nat.le_add_right p more)
  have tie : x = format.midpoint (p + more) :=
    le_antisymm (h.high.trans order) (h'.low (p + more) rfl)
  have same : p = p + more :=
    format.midpoint_strictMono.injective (le_antisymm order (tie ▸ h.high))
  have next : Even (p + more + 1) := h'.even_low (p + more) rfl tie
  rw [← same] at tie next
  exact Nat.even_add_one.1 next (h.even_high tie)

theorem RoundsTo.unique (h : format.RoundsTo x p) (h' : format.RoundsTo x q) : p = q :=
  Nat.le_antisymm (Nat.le_of_not_lt (h'.not_lt h)) (Nat.le_of_not_lt (h.not_lt h'))

theorem RoundsTo.value_le (h : format.RoundsTo x p) (below : x ≤ format.value q) :
    format.value p ≤ format.value q := by
  by_contra beyond
  have less : q < p := format.value_strictMono.lt_iff_lt.1 (lt_of_not_ge beyond)
  obtain ⟨more, rfl⟩ := Nat.exists_eq_add_of_lt less
  have order := format.value_strictMono.monotone (Nat.le_add_right q more)
  have low := h.low (q + more) rfl
  have gap := format.value_lt_midpoint (q + more)
  linarith

theorem RoundsTo.le_value (h : format.RoundsTo x p) (above : format.value q ≤ x) :
    format.value q ≤ format.value p := by
  by_contra beyond
  have less : p < q := format.value_strictMono.lt_iff_lt.1 (lt_of_not_ge beyond)
  have order := format.value_strictMono.monotone (Nat.succ_le_of_lt less)
  have high := h.high
  have gap := format.midpoint_lt_value p
  linarith

theorem roundsTo_of_lt_of_lt (low : format.midpoint p < x) (high : x < format.midpoint (p + 1)) :
    format.RoundsTo x (p + 1) where
  low _ next := Nat.succ.inj next ▸ low.le
  high := high.le
  even_low _ next tie := absurd tie (Nat.succ.inj next ▸ low.ne')
  even_high tie := absurd tie high.ne

theorem roundsTo_of_between (low : format.value p ≤ x) (high : x < format.value (p + 1)) :
    format.RoundsTo x
      (if x < format.midpoint p ∨ x = format.midpoint p ∧ Even p then p else p + 1) := by
  split
  case isTrue near =>
    have before {q : Nat} (next : q + 1 = p) : format.midpoint q < x := by
      subst next
      exact (format.midpoint_lt_value q).trans_le low
    refine ⟨fun q next => (before next).le, ?_, fun q next tie => absurd tie (before next).ne', ?_⟩
    · exact near.elim le_of_lt fun tie => tie.1.le
    · intro tie
      exact near.elim (fun less => absurd tie less.ne) And.right
  case isFalse far =>
    obtain ⟨atLeast, noTie⟩ := not_or.1 far
    have after : x < format.midpoint (p + 1) := high.trans (format.value_lt_midpoint (p + 1))
    refine ⟨?_, after.le, ?_, fun tie => absurd tie after.ne⟩
    · intro q next
      obtain rfl := Nat.succ.inj next
      exact not_lt.1 atLeast
    · intro q next tie
      obtain rfl := Nat.succ.inj next
      exact Nat.even_add_one.2 fun even => noTie ⟨tie, even⟩

theorem value_mul_add {e j : Nat} (normal : format.fractionBound ≤ j ∨ e = 0)
    (bound : j ≤ 2 * format.fractionBound) :
    format.value (e * format.fractionBound + j) = j * 2 ^ e / 2 ^ format.unitExponent := by
  rw [value, units_mul_add normal bound, Nat.cast_mul, Nat.cast_pow, Nat.cast_ofNat]

theorem midpoint_mul_add {e j : Nat} (normal : format.fractionBound ≤ j ∨ e = 0)
    (bound : j + 1 ≤ 2 * format.fractionBound) :
    format.midpoint (e * format.fractionBound + j) =
      (2 * j + 1) * 2 ^ e / 2 / 2 ^ format.unitExponent := by
  rw [midpoint, value_mul_add normal (Nat.le_of_succ_le bound), Nat.add_assoc,
    value_mul_add (normal.imp_left Nat.le_succ_of_le) bound, Nat.cast_succ]
  ring

theorem value_eq_div {e j s : Nat} (normal : format.fractionBound ≤ j ∨ e = 0)
    (bound : j ≤ 2 * format.fractionBound) (scale : e + s = format.unitExponent) :
    format.value (e * format.fractionBound + j) = j / 2 ^ s := by
  rw [value_mul_add normal bound, ← scale, pow_add]
  field_simp

theorem midpoint_eq_div {e j s : Nat} (normal : format.fractionBound ≤ j ∨ e = 0)
    (bound : j + 1 ≤ 2 * format.fractionBound) (scale : e + s = format.unitExponent) :
    format.midpoint (e * format.fractionBound + j) = (2 * j + 1) / 2 ^ (s + 1) := by
  rw [midpoint_mul_add normal bound, ← scale, pow_add, pow_succ]
  field_simp

private theorem significand_bounds (format : FloatFormat) (whole : Nat) :
    let e := whole.log2 - (format.precision - 1)
    (format.fractionBound ≤ whole / 2 ^ e ∨ e = 0) ∧ whole / 2 ^ e + 1 ≤ 2 * format.fractionBound := by
  intro e
  have scale : 0 < 2 ^ e := Nat.two_pow_pos e
  constructor
  · rcases Nat.eq_zero_or_pos e with none | some
    · exact .inr none
    · have exact : format.precision - 1 + e = whole.log2 := by omega
      have nonzero : whole ≠ 0 := by
        rintro rfl
        simp at exact
        omega
      left
      rw [Nat.le_div_iff_mul_le scale, fractionBound, ← Nat.pow_add, exact]
      exact Nat.log2_self_le nonzero
  · have covers : whole.log2 + 1 ≤ format.precision - 1 + 1 + e := by omega
    rw [Nat.succ_le_iff, Nat.div_lt_iff_lt_mul scale]
    calc whole < 2 ^ (whole.log2 + 1) := Nat.lt_log2_self
      _ ≤ 2 ^ (format.precision - 1 + 1 + e) := Nat.pow_le_pow_right (by decide) covers
      _ = 2 * format.fractionBound * 2 ^ e := by
        rw [Nat.pow_add, Nat.pow_succ, Nat.mul_comm _ 2]
        rfl

private theorem midpoint_iff_remainder {num den e : Nat} (positive : 0 < den)
    (normal : format.fractionBound ≤ num / (den * 2 ^ e) ∨ e = 0)
    (bound : num / (den * 2 ^ e) + 1 ≤ 2 * format.fractionBound) :
    let middle := format.midpoint (e * format.fractionBound + num / (den * 2 ^ e))
    ((num / den / 2 ^ format.unitExponent : ℚ) < middle ↔
      2 * (num % (den * 2 ^ e)) < den * 2 ^ e) ∧
    ((num / den / 2 ^ format.unitExponent : ℚ) = middle ↔
      2 * (num % (den * 2 ^ e)) = den * 2 ^ e) := by
  intro middle
  have split := Nat.div_add_mod num (den * 2 ^ e)
  have double : (2 * (num / (den * 2 ^ e)) + 1) * 2 ^ e * den =
      2 * (den * 2 ^ e * (num / (den * 2 ^ e))) + den * 2 ^ e := by ring
  have unit : (0 : ℚ) < 2 ^ format.unitExponent := by positivity
  have divisor : (0 : ℚ) < den := by exact_mod_cast positive
  simp only [middle, midpoint_mul_add normal bound]
  constructor
  · rw [div_lt_div_iff_of_pos_right unit, div_lt_div_iff₀ divisor two_pos]
    norm_cast
    rw [double]
    omega
  · rw [div_left_inj' unit.ne', div_eq_div_iff divisor.ne' two_ne_zero]
    norm_cast
    rw [double]
    omega

private theorem between_significands {num den e : Nat} (positive : 0 < den)
    (normal : format.fractionBound ≤ num / (den * 2 ^ e) ∨ e = 0)
    (bound : num / (den * 2 ^ e) + 1 ≤ 2 * format.fractionBound) :
    let pattern := e * format.fractionBound + num / (den * 2 ^ e)
    format.value pattern ≤ (num / den / 2 ^ format.unitExponent : ℚ) ∧
      (num / den / 2 ^ format.unitExponent : ℚ) < format.value (pattern + 1) := by
  intro pattern
  have unit : (0 : ℚ) < 2 ^ format.unitExponent := by positivity
  have divisor : (0 : ℚ) < den := by exact_mod_cast positive
  have scaled : 0 < den * 2 ^ e := Nat.mul_pos positive (Nat.two_pow_pos e)
  constructor
  · have floor : num / (den * 2 ^ e) * 2 ^ e * den ≤ num := by
      rw [Nat.mul_assoc, Nat.mul_comm (2 ^ e)]
      exact Nat.div_mul_le_self num (den * 2 ^ e)
    rw [value_mul_add normal (Nat.le_of_succ_le bound), div_le_div_iff_of_pos_right unit,
      le_div_iff₀ divisor]
    exact_mod_cast floor
  · have ceiling : num < (num / (den * 2 ^ e) + 1) * 2 ^ e * den := by
      rw [Nat.mul_assoc, Nat.mul_comm (2 ^ e), Nat.mul_comm]
      exact Nat.lt_mul_div_succ num scaled
    rw [Nat.add_assoc, value_mul_add (normal.imp_left Nat.le_succ_of_le) bound,
      div_lt_div_iff_of_pos_right unit, div_lt_iff₀ divisor]
    exact_mod_cast ceiling

private theorem roundsTo_significand {num den e : Nat} (wide : 2 ≤ format.precision) (positive : 0 < den)
    (normal : format.fractionBound ≤ num / (den * 2 ^ e) ∨ e = 0)
    (bound : num / (den * 2 ^ e) + 1 ≤ 2 * format.fractionBound) :
    format.RoundsTo (num / den / 2 ^ format.unitExponent : ℚ)
      (e * format.fractionBound + roundHalfEven num (den * 2 ^ e)) := by
  obtain ⟨low, high⟩ := between_significands positive normal bound
  obtain ⟨near, tie⟩ := midpoint_iff_remainder positive normal bound
  have parity : Even (e * format.fractionBound + num / (den * 2 ^ e)) ↔
      num / (den * 2 ^ e) % 2 = 0 := by
    have even : Even format.fractionBound :=
      (Nat.even_pow' (by omega)).2 even_two
    rw [Nat.even_add, ← Nat.even_iff]
    simp [even.mul_left e]
  have rounds := roundsTo_of_between low high
  simp only [near, tie, parity] at rounds
  rw [roundHalfEven]
  split
  case isTrue down => rwa [if_pos down] at rounds
  case isFalse up => rwa [if_neg up] at rounds

theorem RoundsTo.le_of_le_midpoint {last : Nat} (h : format.RoundsTo x p)
    (below : x ≤ format.midpoint last) : p ≤ last + 1 := by
  by_contra beyond
  obtain ⟨more, rfl⟩ := Nat.exists_eq_add_of_lt (Nat.lt_of_not_le beyond)
  have order := format.midpoint_strictMono (Nat.lt_add_right more (Nat.lt_succ_self last))
  exact absurd (h.low (last + 1 + more) rfl) (not_le.2 (below.trans_lt order))

/-- A ratio, measured in units of the format, is rounded to the nearest number, unless it is beyond
the middle of the last finite number and the next. -/
theorem roundsTo_nearest {num den : Nat} (wide : 2 ≤ format.precision) (some : 0 < format.infinity)
    (positive : 0 < den)
    (below : (num / den / 2 ^ format.unitExponent : ℚ) ≤ format.midpoint (format.infinity - 1)) :
    format.RoundsTo (num / den / 2 ^ format.unitExponent : ℚ) (format.nearest num den) := by
  obtain ⟨normal, bound⟩ := format.significand_bounds (num / den)
  rw [Nat.div_div_eq_div_mul] at normal bound
  have rounds := roundsTo_significand wide positive normal bound
  have last := rounds.le_of_le_midpoint below
  rw [nearest, Nat.min_eq_right (by omega)]
  exact rounds

end AsmTranslit.FloatFormat
