import AsmTranslit.Proofs.DecimalNumerals
import AsmTranslit.Register
import Mathlib.Data.List.Basic

/-!
# Names of registers

Which names a register has.  Its printed name is one, in either letter case, and no other register has
it.  A register with a number has further names: the number may be written with a plus sign in front,
and behind the sign with zeros in front.  There are no others.
-/

namespace AsmTranslit.Register

def family? : Register → Option (String × Nat)
  | vector width number => some (width.intelFamily, number)
  | mask number => some ("k", number)
  | _ => none

/-- A name with a plus sign between the family and the number. -/
def HasSignedName (r : Register) (name : String) : Prop :=
  ∃ family number digits, r.family? = some (family, number) ∧
    name.toList = family.toList ++ '+' :: digits ∧ readNumeral? 10 digits = some number

variable {r : Register} {name family : String}

theorem intelName_of_family? {number : Nat} (h : r.family? = some (family, number)) :
    r.intelName = family ++ toString number := by
  cases r with
  | vector width n =>
    obtain ⟨rfl, rfl⟩ := Prod.mk.inj (Option.some.inj h)
    rfl
  | mask n =>
    obtain ⟨rfl, rfl⟩ := Prod.mk.inj (Option.some.inj h)
    rfl
  | _ => cases h

section

variable {limit : Nat} {register : Fin limit → Register}

/-- The number is written as it is printed, or has a plus sign in front. -/
theorem familyNumber?_eq_some_iff {cs : List Char} {number : Fin limit} :
    familyNumber? limit cs = some number ↔
      cs = Nat.toDigits 10 number ∨
        ∃ digits, cs = '+' :: digits ∧ readNumeral? 10 digits = some number.val := by
  have bounded (n : Nat) :
      (if h : n < limit then some (⟨n, h⟩ : Fin limit) else none) = some number ↔ n = number.val := by
    simp only [Option.dite_none_right_eq_some, Option.some.injEq, Fin.ext_iff, exists_prop,
      and_iff_right_iff_imp]
    rintro rfl
    exact number.isLt
  rw [familyNumber?.eq_def]
  split
  case isTrue padded =>
    obtain ⟨long, first⟩ := padded
    simp only [reduceCtorEq, false_iff, not_or]
    constructor
    · rintro rfl
      rw [eq_zero_of_head?_toDigits first] at long
      exact absurd long (by decide)
    · rintro ⟨digits, rfl, -⟩
      simp at first
  case isFalse unpadded =>
    split
    case h_1 digits =>
      have noDigit : '+' :: digits ≠ Nat.toDigits 10 number := fun same =>
        absurd (isDigit_of_mem_toDigits (same ▸ List.mem_cons_self)) (by decide)
      dsimp only
      cases read : readNumeral? 10 digits <;> simp [noDigit, bounded, read]
    case h_2 noSign =>
      have unsigned : ¬∃ digits, cs = '+' :: digits ∧ readNumeral? 10 digits = some number.val := by
        rintro ⟨digits, same, -⟩
        exact noSign digits same
      have shortest : cs.head? = some '0' → cs = ['0'] := by
        intro first
        rw [not_and] at unpadded
        cases cs with
        | nil => cases first
        | cons c cs =>
          obtain rfl := Option.some.inj first
          cases cs with
          | nil => rfl
          | cons d cs => exact absurd rfl (unpadded (by simp))
      rw [or_iff_left unsigned, ← readNumeral?_eq_some_iff shortest]
      dsimp only
      cases readNumeral? 10 cs <;> simp [bounded]

theorem inFamily?_eq_some_iff :
    inFamily? family limit register name = some r ↔
      ∃ digits, name.toList = family.toList ++ digits ∧
        ∃ number, familyNumber? limit digits = some number ∧ register number = r := by
  simp only [inFamily?, Option.bind_eq_some_iff, Option.map_eq_some_iff,
    List.isPrefixOf?_eq_some_iff_append_eq, eq_comm (a := name.toList)]

theorem inFamily?_eq_none (family : String) {c d : Char} (letter : family.toList.head? = some d)
    (first : name.toList.head? = some c) (other : d ≠ c) :
    inFamily? family limit register name = none := by
  rw [Option.eq_none_iff_forall_ne_some]
  intro r h
  obtain ⟨digits, split, -⟩ := inFamily?_eq_some_iff.1 h
  rw [split, List.head?_append, letter] at first
  exact other (Option.some.inj first)

theorem exists_digits_of_name {number : Nat} (numbered : r.family? = some (family, number))
    (h : name = r.intelName ∨ r.HasSignedName name) :
    ∃ digits, name.toList = family.toList ++ digits ∧ (digits = Nat.toDigits 10 number ∨
      ∃ signed, digits = '+' :: signed ∧ readNumeral? 10 signed = some number) := by
  rcases h with rfl | ⟨family', number', digits, numbered', split, read⟩
  · refine ⟨Nat.toDigits 10 number, ?_, .inl rfl⟩
    rw [intelName_of_family? numbered, String.toList_append, Nat.toString_eq_ofList_toDigits,
      String.toList_ofList]
  · rw [numbered] at numbered'
    obtain ⟨rfl, rfl⟩ := Prod.mk.inj (Option.some.inj numbered')
    exact ⟨'+' :: digits, split, .inr ⟨digits, rfl, read⟩⟩

theorem head?_of_name {c : Char} {number : Nat} (numbered : r.family? = some (family, number))
    (letter : family.toList.head? = some c) (h : name = r.intelName ∨ r.HasSignedName name) :
    name.toList.head? = some c := by
  obtain ⟨digits, split, -⟩ := exists_digits_of_name numbered h
  rw [split, List.head?_append, letter, Option.some_or]

theorem inFamily?_of_name (register : Fin limit → Register) {number : Fin limit}
    (numbered : r.family? = some (family, number.val)) (made : register number = r)
    (h : name = r.intelName ∨ r.HasSignedName name) :
    inFamily? family limit register name = some r := by
  obtain ⟨digits, split, read⟩ := exists_digits_of_name numbered h
  exact inFamily?_eq_some_iff.2 ⟨digits, split, number, familyNumber?_eq_some_iff.2 read, made⟩

theorem name_of_inFamily? (h : inFamily? family limit register name = some r)
    (numbered : ∀ number, (register number).family? = some (family, number.val)) :
    name = r.intelName ∨ r.HasSignedName name := by
  obtain ⟨digits, split, number, read, rfl⟩ := inFamily?_eq_some_iff.1 h
  rcases familyNumber?_eq_some_iff.1 read with rfl | ⟨signed, rfl, value⟩
  · refine .inl ?_
    rw [← String.toList_inj, split, intelName_of_family? (numbered number), String.toList_append,
      Nat.toString_eq_ofList_toDigits, String.toList_ofList]
  · exact .inr ⟨family, number, signed, numbered number, split, value⟩

end

private theorem mem_named (h : r.family? = none) : r ∈ named := by
  cases r with
  | general width number => cases width <;> simp [named]
  | highByte number => simp [named]
  | segment number => simp [named]
  | instructionPointer => simp [named]
  | vector width number => cases h
  | mask number => cases h

private theorem nodup_named : (named.map intelName).Nodup := by
  decide +kernel

private theorem find?_named (h : r ∈ named) :
    named.find? (fun own => own.intelName == r.intelName) = some r := by
  rw [List.find?_eq_some_iff_append]
  obtain ⟨front, back, split⟩ := List.append_of_mem h
  refine ⟨by simp, front, back, split, ?_⟩
  intro own member
  have distinct := nodup_named
  rw [split, List.map_append, List.map_cons, List.nodup_append] at distinct
  have other := distinct.2.2 _ (List.mem_map_of_mem member) _ List.mem_cons_self
  simpa using other

/-- The families start with letters that the names of single registers do not start with. -/
theorem head?_of_mem_named :
    ∀ r ∈ named, r.intelName.toList.head? ∉ ['x', 'y', 'z', 'k'].map some := by
  decide +kernel

theorem find?_named_eq_none {c : Char} (first : name.toList.head? = some c)
    (family : c ∈ ['x', 'y', 'z', 'k']) : named.find? (fun r => r.intelName == name) = none := by
  rw [List.find?_eq_none]
  intro r member same
  rw [beq_iff_eq] at same
  apply head?_of_mem_named r member
  rw [same, first]
  exact List.mem_map_of_mem family

private theorem ofIntel?_of_unnumbered (unnumbered : r.family? = none)
    (h : lowerCase name = r.intelName ∨ r.HasSignedName (lowerCase name)) :
    ofIntel? name = some r := by
  rcases h with printed | ⟨family, number, digits, numbered, -⟩
  · rw [ofIntel?, printed, find?_named (mem_named unnumbered)]
    rfl
  · rw [unnumbered] at numbered
    cases numbered

/-- A register is found under its printed name and its signed ones. -/
theorem ofIntel?_of_name (h : lowerCase name = r.intelName ∨ r.HasSignedName (lowerCase name)) :
    ofIntel? name = some r := by
  -- the first letter tells the families apart, and from the names of single registers
  cases r with
  | vector width number =>
    cases width with
    | xmm =>
      have own : inFamily? "xmm" 32 _ _ = _ := inFamily?_of_name (vector .xmm) rfl rfl h
      have first : (lowerCase name).toList.head? = some 'x' := head?_of_name rfl rfl h
      rw [ofIntel?, find?_named_eq_none first (by decide), own]
      rfl
    | ymm =>
      have own : inFamily? "ymm" 32 _ _ = _ := inFamily?_of_name (vector .ymm) rfl rfl h
      have first : (lowerCase name).toList.head? = some 'y' := head?_of_name rfl rfl h
      rw [ofIntel?, find?_named_eq_none first (by decide),
        inFamily?_eq_none "xmm" rfl first (by decide), own]
      rfl
    | zmm =>
      have own : inFamily? "zmm" 32 _ _ = _ := inFamily?_of_name (vector .zmm) rfl rfl h
      have first : (lowerCase name).toList.head? = some 'z' := head?_of_name rfl rfl h
      rw [ofIntel?, find?_named_eq_none first (by decide),
        inFamily?_eq_none "xmm" rfl first (by decide),
        inFamily?_eq_none "ymm" rfl first (by decide), own]
      rfl
  | mask number =>
    have own : inFamily? "k" 8 _ _ = _ := inFamily?_of_name mask rfl rfl h
    have first : (lowerCase name).toList.head? = some 'k' := head?_of_name rfl rfl h
    rw [ofIntel?, find?_named_eq_none first (by decide),
      inFamily?_eq_none "xmm" rfl first (by decide),
      inFamily?_eq_none "ymm" rfl first (by decide),
      inFamily?_eq_none "zmm" rfl first (by decide), own]
    rfl
  | _ => exact ofIntel?_of_unnumbered rfl h

theorem name_of_ofIntel? (h : ofIntel? name = some r) :
    lowerCase name = r.intelName ∨ r.HasSignedName (lowerCase name) := by
  simp only [ofIntel?, Option.orElse_eq_orElse, Option.orElse_eq_or, Option.or_eq_some_iff] at h
  rcases h with own | ⟨-, xmm | ⟨-, ymm | ⟨-, zmm | ⟨-, mask⟩⟩⟩⟩
  · have same := List.find?_some own
    exact .inl (beq_iff_eq.1 same).symm
  · exact name_of_inFamily? xmm fun _ => rfl
  · exact name_of_inFamily? ymm fun _ => rfl
  · exact name_of_inFamily? zmm fun _ => rfl
  · exact name_of_inFamily? mask fun _ => rfl

/-- A text stands for a register if in lower case it is the register's printed name, or has a plus sign
in front of the number. -/
theorem ofIntel?_eq_some_iff {name : String} {r : Register} :
    ofIntel? name = some r ↔ lowerCase name = r.intelName ∨ r.HasSignedName (lowerCase name) :=
  ⟨name_of_ofIntel?, ofIntel?_of_name⟩

/-- A name with a plus sign stands for a register although it is not the printed one. -/
theorem signed_number_recognised :
    ofIntel? "xmm+5" = some (vector .xmm 5) ∧ lowerCase "xmm+5" ≠ (vector .xmm 5).intelName := by
  decide +kernel

end AsmTranslit.Register
