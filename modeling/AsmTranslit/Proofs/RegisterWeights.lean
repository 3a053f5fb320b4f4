import AsmTranslit.Proofs.EffectiveAddress

/-!
# Weights of registers

How many times an address counts a register: once as its base and as many times as the scale says as its
index.  Addresses that are equal whatever registers hold count each register equally often and have the
same symbol, as is seen by putting a one in one place and zero in all others.  So an address can do
without a certain index only if it counts that register once at most, or next to a symbol not at all.
-/

namespace AsmTranslit

def indexWeight {α : Type} [DecidableEq α] (r : α) : Option (α × Scale) → Nat
  | none => 0
  | some (index, scale) => if index = r then scale.factor else 0

/-- How many times a term counts a register. -/
def Term.weight (r : Register) : Term → Nat
  | register own => if own = r then 1 else 0
  | scaled own factor => if own = r then factor.toNat else 0
  | _ => 0

def termWeight (r : Register) (terms : List SignedTerm) : Nat :=
  (terms.map (·.term.weight r)).sum

@[simp] theorem termWeight_concat (r : Register) (terms : List SignedTerm) (t : SignedTerm) :
    termWeight r (terms ++ [t]) = termWeight r terms + t.term.weight r := by
  simp [termWeight]

def MemoryOperand.weight (r : Register) (m : MemoryOperand) : Nat :=
  (if m.base = some r then 1 else 0) + indexWeight r m.index

/-- The register of an address that is written with a scale. -/
def GoAddress.index? : GoAddress → Option GoRegister
  | based _ _ index => index.map Prod.fst
  | indexed _ r _ => some r
  | symbolic _ _ index => index.map Prod.fst

def GoAddress.weight (r : GoRegister) : GoAddress → Nat
  | based _ base index => (if base = r then 1 else 0) + indexWeight r index
  | indexed _ index scale => indexWeight r (some (index, scale))
  | symbolic _ _ index => indexWeight r index

theorem Scale.factor_pos (scale : Scale) : 0 < scale.factor := by
  cases scale <;> decide

private theorem Scale.factor_le (scale : Scale) : scale.factor ≤ 8 := by
  cases scale <;> decide

namespace GoAddress

/-- A one in one register, or at one symbol, and zero everywhere else. -/
def probe (register : Option GoRegister) (symbol : Option String) : Valuation where
  register r := if register.map GoRegister.inAddress = some r then 1 else 0
  symbol s := if symbol = some s then 1 else 0

private theorem inAddress_injective : Function.Injective GoRegister.inAddress := by
  intro first second same
  cases first <;> cases second <;> simp_all [GoRegister.inAddress]

variable {a b : GoAddress} {r : GoRegister}

theorem probe_register (g : GoRegister) :
    (((probe (some r) none).register g.inAddress).toNat : Int) = if g = r then 1 else 0 := by
  by_cases same : g = r
  · simp [probe, same]
  · have other : r.inAddress ≠ g.inAddress := fun equal => same (inAddress_injective equal.symm)
    simp [probe, same, other]

theorem goIndexValue_probe (index : Option (GoRegister × Scale)) :
    goIndexValue (probe (some r) none) index = indexWeight r index := by
  cases index with
  | none => rfl
  | some entry =>
    obtain ⟨g, scale⟩ := entry
    rw [goIndexValue, probe_register, indexWeight]
    split <;> simp

theorem goIndexValue_probe_symbol (symbol : Option String) (index : Option (GoRegister × Scale)) :
    goIndexValue (probe none symbol) index = 0 := by
  cases index <;> simp [goIndexValue, probe]

private theorem value_probe_register (a : GoAddress) (r : GoRegister) :
    a.value (probe (some r) none) = a.value (probe none none) + a.weight r := by
  cases a with
  | based displacement base index =>
    simp only [value, weight, goIndexValue_probe, goIndexValue_probe_symbol, probe_register]
    simp [probe]
    ring
  | indexed displacement index scale =>
    simp only [value, weight, goIndexValue_probe, goIndexValue_probe_symbol]
    ring
  | symbolic symbol offset index =>
    simp only [value, weight, goIndexValue_probe, goIndexValue_probe_symbol]
    simp [probe]

private theorem value_probe_symbol (a : GoAddress) (symbol : String) :
    a.value (probe none (some symbol)) =
      a.value (probe none none) + if a.symbol? = some symbol then 1 else 0 := by
  cases a with
  | based displacement base index =>
    simp only [value, goIndexValue_probe_symbol]
    simp [symbol?, probe]
  | indexed displacement index scale =>
    simp only [value, goIndexValue_probe_symbol]
    simp [symbol?]
  | symbolic own offset index =>
    simp only [value, goIndexValue_probe_symbol]
    by_cases same : own = symbol
    · simp [symbol?, probe, same, add_comm]
    · have other : symbol ≠ own := fun equal => same equal.symm
      simp [symbol?, probe, same, other]

theorem weight_le (a : GoAddress) (r : GoRegister) : a.weight r ≤ 9 := by
  have small (index : Option (GoRegister × Scale)) : indexWeight r index ≤ 8 := by
    cases index with
    | none => simp [indexWeight]
    | some entry =>
      rw [indexWeight]
      split
      case isTrue => exact entry.2.factor_le
      case isFalse => exact Nat.zero_le _
  cases a with
  | based displacement base index =>
    have index := small index
    rw [weight]
    split <;> omega
  | indexed displacement index scale => exact Nat.le_succ_of_le (small (some (index, scale)))
  | symbolic symbol offset index => exact Nat.le_succ_of_le (small index)

/-- Equal addresses count each register equally often. -/
theorem weight_eq_of_value (same : ∀ v, b.value v ≡ a.value v [ZMOD 2 ^ 64]) (r : GoRegister) :
    b.weight r = a.weight r := by
  have counted := (same (probe (some r) none)).sub (same (probe none none))
  simp only [value_probe_register, add_sub_cancel_left] at counted
  have first := a.weight_le r
  have second := b.weight_le r
  rw [Int.ModEq, Int.emod_eq_of_lt (by omega) (by omega), Int.emod_eq_of_lt (by omega) (by omega)]
    at counted
  exact_mod_cast counted

private theorem symbol?_of_value (same : ∀ v, b.value v ≡ a.value v [ZMOD 2 ^ 64]) {symbol : String}
    (named : a.symbol? = some symbol) : b.symbol? = some symbol := by
  have counted := (same (probe none (some symbol))).sub (same (probe none none))
  simp only [value_probe_symbol, add_sub_cancel_left, named, if_true] at counted
  by_contra other
  rw [if_neg other] at counted
  exact absurd counted (by decide)

/-- An address without the index `r` counts it once at most, and next to a symbol not at all. -/
theorem weight_le_of_index? (free : a.index? ≠ some r) :
    a.weight r ≤ if a.symbol?.isSome then 0 else 1 := by
  have none_of (index : Option (GoRegister × Scale)) (free : index.map Prod.fst ≠ some r) :
      indexWeight r index = 0 := by
    cases index with
    | none => rfl
    | some entry =>
      rw [indexWeight, if_neg]
      rintro rfl
      exact free rfl
  cases a with
  | based displacement base index =>
    rw [weight, none_of index free]
    simp only [symbol?, Option.isSome_none]
    split <;> simp
  | indexed displacement index scale =>
    rw [weight, none_of (some (index, scale)) free]
    exact Nat.zero_le _
  | symbolic symbol offset index =>
    rw [weight, none_of index free]
    exact Nat.zero_le _

/-- An address can be written without the index `r` if it counts that register once at most, and next
to a symbol not at all: as a base it counts once, and a symbol leaves no place for a base. -/
theorem exists_value_modEq_iff (a : GoAddress) (r : GoRegister) :
    (∃ b : GoAddress, b.index? ≠ some r ∧ ∀ v, b.value v ≡ a.value v [ZMOD 2 ^ 64]) ↔
      a.weight r ≤ if a.symbol?.isSome then 0 else 1 := by
  constructor
  · rintro ⟨b, free, same⟩
    have bound := weight_le_of_index? free
    rw [weight_eq_of_value same] at bound
    cases named : a.symbol? with
    | some symbol => simpa [symbol?_of_value same named] using bound
    | none =>
      refine bound.trans ?_
      split <;> simp
  · intro bound
    by_cases free : a.index? ≠ some r
    · exact ⟨a, free, fun v => .refl _⟩
    have taken : a.index? = some r := not_not.1 free
    have unscaled (scale : Scale) (few : scale.factor ≤ 1) : scale = .one := by
      cases scale <;> simp_all [Scale.factor]
    cases a with
    | based displacement base index =>
      obtain ⟨⟨index, scale⟩, rfl, rfl⟩ := Option.map_eq_some_iff.1 taken
      simp only [weight, indexWeight, symbol?, if_true, Option.isSome_none, Bool.false_eq_true,
        if_false] at bound
      have positive := scale.factor_pos
      have other : base ≠ index := by
        rintro rfl
        rw [if_pos rfl] at bound
        omega
      rw [if_neg other] at bound
      obtain rfl := unscaled scale (by omega)
      refine ⟨.based displacement index (some (base, .one)), by simpa [index?] using other, fun v => ?_⟩
      have same : (GoAddress.based displacement index (some (base, .one))).value v =
          (GoAddress.based displacement base (some (index, .one))).value v := by
        simp only [value, goIndexValue, Scale.factor]
        ring
      rw [same]
    | indexed displacement index scale =>
      obtain rfl := Option.some.inj taken
      obtain rfl := unscaled scale (by simpa [weight, indexWeight, symbol?] using bound)
      refine ⟨.based displacement index none, by simp [index?], fun v => ?_⟩
      simp [value, goIndexValue, Scale.factor]
    | symbolic symbol offset index =>
      obtain ⟨⟨index, scale⟩, rfl, rfl⟩ := Option.map_eq_some_iff.1 taken
      have positive := scale.factor_pos
      simp only [weight, indexWeight, symbol?, if_true, Option.isSome_some] at bound
      omega

end GoAddress

end AsmTranslit
