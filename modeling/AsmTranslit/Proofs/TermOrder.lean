import AsmTranslit.Proofs.IndexRegisters
import Mathlib.Algebra.BigOperators.Group.List.Basic
import Mathlib.Data.List.Permutation

/-!
# Order of terms

Whether the order of an address's terms matters.  What a term has to be by itself does not depend on the
order, and neither does the number of symbols and registers, nor the address.  Only the places of two
registers do, if both have a factor: one of them becomes the base, and that has to be the first, with the
factor one.  So one order of such terms can be accepted and the other refused.
-/

namespace AsmTranslit

/-- The register of a term, with its factor if it has one. -/
def Term.place? : Term → Option (Register × Option UInt64)
  | register r => some (r, none)
  | scaled r factor => some (r, some factor)
  | _ => none

def placesOf (terms : List SignedTerm) : List (Register × Option UInt64) :=
  terms.filterMap (·.term.place?)

/-- What registers become in the order in which they are written: the base and the index. -/
inductive Placed :
    List (Register × Option UInt64) → Option Register → Option (Register × Scale) → Prop
  | none : Placed [] none none
  | base (r : Register) : Placed [(r, none)] (some r) none
  | index (r : Register) {factor : UInt64} {scale : Scale}
    (known : Scale.ofFactor? factor = some scale) : Placed [(r, some factor)] none (some (r, scale))
  | second (r q : Register) : Placed [(r, none), (q, none)] (some r) (some (q, .one))
  | baseFirst (r q : Register) {factor : UInt64} {scale : Scale}
    (known : Scale.ofFactor? factor = some scale) :
    Placed [(r, none), (q, some factor)] (some r) (some (q, scale))
  | indexFirst (r q : Register) {factor : UInt64} {scale : Scale}
    (known : Scale.ofFactor? factor = some scale) :
    Placed [(q, some factor), (r, none)] (some r) (some (q, scale))
  /-- A register with the factor one becomes the base when another with a factor follows. -/
  | promoted (r q : Register) {factor : UInt64} {scale : Scale}
    (known : Scale.ofFactor? factor = some scale) :
    Placed [(r, some 1), (q, some factor)] (some r) (some (q, scale))

/-- Two registers have a factor, and it is one for the second alone. -/
def IsMisordered (terms : List SignedTerm) : Prop :=
  ∃ first second factor, factor ≠ 1 ∧ placesOf terms = [(first, some factor), (second, some 1)]

/-- What a term has to be, whatever the others are. -/
def SignedTerm.IsUsable (t : SignedTerm) : Prop :=
  match t.term with
  | .number _ => True
  | .symbol _ => t.negative = false
  | .register r => t.negative = false ∧ r.isUsableInAddress
  | .scaled r factor => t.negative = false ∧ r.isUsableInAddress ∧ r ≠ .instructionPointer ∧
    (Scale.ofFactor? factor).isSome

/-- The conditions on terms that do not depend on their order.  The instruction pointer suffers no other
register. -/
structure AreUsable (terms : List SignedTerm) : Prop where
  each : ∀ t ∈ terms, t.IsUsable
  symbols : (terms.filterMap (·.term.symbol?)).length ≤ 1
  relative : ∀ place ∈ placesOf terms, place.1 = .instructionPointer → (placesOf terms).length = 1

variable {places places' : List (Register × Option UInt64)} {base : Option Register}
  {index : Option (Register × Scale)} {terms terms' : List SignedTerm} {t : SignedTerm}

theorem placesOf_concat (terms : List SignedTerm) (t : SignedTerm) :
    placesOf (terms ++ [t]) = placesOf terms ++ t.term.place?.toList := by
  rw [placesOf, List.filterMap_append, ← placesOf]
  cases named : t.term.place? <;> simp [named]

theorem AreUsable.perm (h : AreUsable terms) (perm : terms.Perm terms') : AreUsable terms' where
  each t member := h.each t (perm.mem_iff.2 member)
  symbols := by
    rw [← (perm.filterMap _).length_eq]
    exact h.symbols
  relative place member isRip := by
    have same : (placesOf terms).Perm (placesOf terms') := perm.filterMap _
    rw [← same.length_eq]
    exact h.relative place (same.mem_iff.2 member) isRip

private theorem eq_one_of_ofFactor? {factor : UInt64} (h : Scale.ofFactor? factor = some .one) :
    factor = 1 := by
  have same := Scale.factor_of_ofFactor? h
  exact UInt64.toNat_inj.1 same.symm

theorem Placed.length_eq (h : Placed places base index) :
    places.length = base.toList.length + index.toList.length := by
  cases h <;> rfl

private theorem Placed.indexOne (r : Register) : Placed [(r, some 1)] .none (.some (r, .one)) :=
  .index r rfl

private theorem Placed.exists_front {place : Register × Option UInt64}
    (h : Placed (places ++ [place]) base index) : ∃ base index, Placed places base index := by
  generalize all : places ++ [place] = written at h
  have front : places = written.dropLast := by rw [← all, List.dropLast_concat]
  subst front
  cases h with
  | none => simp at all
  | base r => exact ⟨_, _, .none⟩
  | index r known => exact ⟨_, _, .none⟩
  | second r q => exact ⟨_, _, .base r⟩
  | baseFirst r q known => exact ⟨_, _, .base r⟩
  | indexFirst r q known => exact ⟨_, _, .index q known⟩
  | promoted r q known => exact ⟨_, _, .indexOne r⟩

/-- Registers that have places in one order have them in any other, unless two factors stand in the
wrong order. -/
theorem Placed.perm (h : Placed places base index) (perm : places'.Perm places) :
    (∃ base index, Placed places' base index) ∨
      ∃ first second factor, factor ≠ 1 ∧ places' = [(first, some factor), (second, some 1)] := by
  cases h with
  | none =>
    obtain rfl := perm.eq_nil
    exact .inl ⟨_, _, .none⟩
  | base r =>
    obtain rfl := List.perm_singleton.1 perm
    exact .inl ⟨_, _, .base r⟩
  | index r known =>
    obtain rfl := List.perm_singleton.1 perm
    exact .inl ⟨_, _, .index r known⟩
  | second r q =>
    rcases List.perm_pair.1 perm with rfl | rfl
    · exact .inl ⟨_, _, .second r q⟩
    · exact .inl ⟨_, _, .second q r⟩
  | baseFirst r q known =>
    rcases List.perm_pair.1 perm with rfl | rfl
    · exact .inl ⟨_, _, .baseFirst r q known⟩
    · exact .inl ⟨_, _, .indexFirst r q known⟩
  | indexFirst r q known =>
    rcases List.perm_pair.1 perm with rfl | rfl
    · exact .inl ⟨_, _, .indexFirst r q known⟩
    · exact .inl ⟨_, _, .baseFirst r q known⟩
  | @promoted r q factor scale known =>
    rcases List.perm_pair.1 perm with rfl | rfl
    · exact .inl ⟨_, _, .promoted r q known⟩
    · by_cases one : factor = 1
      · subst one
        exact .inl ⟨_, _, .promoted q r known⟩
      · exact .inr ⟨q, r, factor, one, rfl⟩

private theorem IsMisordered.not_placed (h : IsMisordered terms) :
    ¬Placed (placesOf terms) base index := by
  obtain ⟨first, second, factor, other, same⟩ := h
  rw [same]
  intro placed
  cases placed with
  | promoted => exact other rfl

namespace MemoryOperand

variable {m m' : MemoryOperand}

private theorem isUsable_of_addTerm (h : m.addTerm t = .ok m') : t.IsUsable := by
  obtain ⟨negative, t⟩ := t
  cases t with
  | number n => trivial
  | symbol name =>
    cases negative with
    | true => simp [addTerm] at h
    | false => rfl
  | register r =>
    cases negative with
    | true => simp [addTerm] at h
    | false =>
      have h : m.addRegister r = .ok m' := h
      rw [addRegister] at h
      split at h
      case isTrue => cases h
      case isFalse usable => exact ⟨rfl, by simpa using usable⟩
  | scaled r factor =>
    cases negative with
    | true => simp [addTerm] at h
    | false =>
      have h : m.addScaled r factor = .ok m' := h
      rw [addScaled] at h
      split at h
      case isTrue => cases h
      case isFalse usable =>
        split at h
        case isTrue => cases h
        case isFalse noRip =>
          split at h
          case h_1 => cases h
          case h_2 scale known => exact ⟨rfl, by simpa using usable, noRip, by simp [known]⟩

private theorem placed_takes (h : Placed (placesOf terms) m.base m.index) (step : m.Takes t m') :
    Placed (placesOf (terms ++ [t])) m'.base m'.index := by
  rw [placesOf_concat]
  obtain ⟨size, segment, base, index, displacement, symbol⟩ := m
  generalize placesOf terms = places at h
  cases step with
  | number negative n => simpa [Term.place?, addNumber] using h
  | symbol name free => simpa [Term.place?] using h
  | base r free =>
    obtain rfl : base = none := free
    cases h with
    | none => exact .base r
    | index q known => exact .indexFirst r q known
  | second r taken free =>
    obtain rfl : base = some _ := taken
    obtain rfl : index = none := free
    cases h with
    | base => exact .second _ r
  | index r known free =>
    obtain rfl : index = none := free
    cases h with
    | none => exact .index r known
    | base own => exact .baseFirst own r known
  | promoted r known taken free =>
    obtain rfl : base = none := free
    obtain rfl : index = some _ := taken
    cases h with
    | index own one =>
      obtain rfl := eq_one_of_ofFactor? one
      exact .promoted _ r known

private theorem exists_addRegister {r : Register} (placed : Placed places m.base m.index)
    (usable : r.isUsableInAddress) (fits : Placed (places ++ [(r, none)]) base index) :
    ∃ m', m.addRegister r = .ok m' := by
  have count := placed.length_eq
  have longer := fits.length_eq
  rw [List.length_append, List.length_singleton, count] at longer
  rw [addRegister, usable]
  cases hasBase : m.base with
  | none => exact ⟨_, rfl⟩
  | some b =>
    cases hasIndex : m.index with
    | none => exact ⟨_, rfl⟩
    | some entry =>
      rw [hasBase, hasIndex] at longer
      cases base <;> cases index <;> simp at longer

private theorem exists_addScaled {r : Register} {factor : UInt64} (placed : Placed places m.base m.index)
    (usable : SignedTerm.IsUsable ⟨false, .scaled r factor⟩)
    (fits : Placed (places ++ [(r, some factor)]) base index) :
    ∃ m', m.addScaled r factor = .ok m' := by
  obtain ⟨-, usable, noRip, known⟩ := usable
  obtain ⟨scale, known⟩ := Option.isSome_iff_exists.1 known
  have count := placed.length_eq
  have longer := fits.length_eq
  rw [List.length_append, List.length_singleton, count] at longer
  rw [addScaled, usable, if_neg noRip, known]
  cases hasIndex : m.index with
  | none => exact ⟨_, rfl⟩
  | some entry =>
    rw [hasIndex] at placed longer
    cases hasBase : m.base with
    | some b =>
      rw [hasBase] at longer
      cases base <;> cases index <;> simp at longer
    | none =>
      rw [hasBase] at placed
      -- the only register in front has a factor, and that is one
      cases placed with
      | index own one =>
        cases fits with
        | promoted =>
          obtain rfl := Option.some.inj one
          exact ⟨_, rfl⟩

private theorem exists_addTerm (placed : Placed places m.base m.index) (usable : t.IsUsable)
    (symbol : m.symbol.toList.length + t.term.symbol?.toList.length ≤ 1)
    (fits : Placed (places ++ t.term.place?.toList) base index) : ∃ m', m.addTerm t = .ok m' := by
  obtain ⟨negative, t⟩ := t
  cases t with
  | number n => exact ⟨_, rfl⟩
  | symbol name =>
    obtain rfl : negative = false := usable
    cases named : m.symbol with
    | none => exact ⟨{ m with symbol := some name }, by simp [addTerm, addSymbol, named]⟩
    | some other => simp [named, Term.symbol?] at symbol
  | register r =>
    obtain ⟨rfl, usable⟩ := usable
    exact exists_addRegister placed usable fits
  | scaled r factor =>
    obtain ⟨rfl, -⟩ := id usable
    exact exists_addScaled placed usable fits

theorem placed_foldlM_addTerm (placed : Placed (placesOf terms) m.base m.index)
    (usable : ∀ t ∈ terms, t.IsUsable) {later : List SignedTerm}
    (run : later.foldlM addTerm m = .ok m') :
    (∀ t ∈ terms ++ later, t.IsUsable) ∧ Placed (placesOf (terms ++ later)) m'.base m'.index := by
  induction later generalizing m terms with
  | nil =>
    obtain rfl : m = m' := by simpa [pure, Except.pure] using run
    simpa using And.intro usable placed
  | cons t later ih =>
    rw [List.foldlM_cons, bind_eq_ok_iff] at run
    obtain ⟨next, added, run⟩ := run
    have each : ∀ u ∈ terms ++ [t], u.IsUsable := by
      rw [List.forall_mem_append, List.forall_mem_singleton]
      exact ⟨usable, isUsable_of_addTerm added⟩
    simpa using ih (placed_takes placed (takes_of_addTerm added)) each run

private theorem exists_foldlM_addTerm (size : Option Size) (segment : Option (Fin 6))
    (usable : ∀ t ∈ terms, t.IsUsable) (symbols : (terms.filterMap (·.term.symbol?)).length ≤ 1)
    (fits : Placed (placesOf terms) base index) :
    ∃ m, terms.foldlM addTerm { size := size, segment := segment } = .ok m := by
  induction terms using List.reverseRecOn generalizing base index with
  | nil => exact ⟨_, rfl⟩
  | append_singleton terms t ih =>
    rw [List.filterMap_append, List.length_append] at symbols
    rw [placesOf_concat] at fits
    have front : ∃ base index, Placed (placesOf terms) base index := by
      cases place : t.term.place? with
      | none =>
        rw [place, Option.toList_none, List.append_nil] at fits
        exact ⟨_, _, fits⟩
      | some place' =>
        rw [place, Option.toList_some] at fits
        exact fits.exists_front
    obtain ⟨base', index', front⟩ := front
    obtain ⟨m, run⟩ := ih (fun u member => usable u (List.mem_append_left _ member)) (by omega) front
    have start : Follows { size := size, segment := segment } [] := {
      value := fun v => .refl _
      labels := rfl
      registers := fun r hr => by cases hr }
    have labels := (start.foldlM_addTerm run).labels
    have empty : Placed (placesOf []) none none := .none
    have none : ∀ u ∈ ([] : List SignedTerm), u.IsUsable := nofun
    obtain ⟨-, placed⟩ := placed_foldlM_addTerm empty none run
    rw [List.nil_append] at labels placed
    have last : ([t].filterMap (·.term.symbol?)) = t.term.symbol?.toList := by
      cases named : t.term.symbol? <;> simp [named]
    rw [labels, last] at symbols
    obtain ⟨m', added⟩ := exists_addTerm placed (usable t (by simp)) symbols fits
    refine ⟨m', ?_⟩
    rw [List.foldlM_append, bind_eq_ok_iff]
    exact ⟨m, run, by simp [added, bind, Except.bind, pure, Except.pure]⟩

theorem checkIndex_eq_ok_iff_of_placed (placed : Placed places m.base m.index)
    (unscaled : ∀ factor, (.instructionPointer, some factor) ∉ places) :
    m.checkIndex = .ok m ↔ ∀ place ∈ places, place.1 = .instructionPointer → places.length = 1 := by
  have indexed {r : Register} {scale : Scale} (hasIndex : m.index = some (r, scale)) :
      m.checkIndex = .ok m ↔ r ≠ .instructionPointer ∧ m.base ≠ some .instructionPointer := by
    simp [checkIndex_eq_ok_iff, hasIndex]
  generalize hasBase : m.base = base at placed
  generalize hasIndex : m.index = index at placed
  cases placed with
  | none => simp [checkIndex, hasIndex]
  | base r => simp [checkIndex, hasIndex]
  | @index r factor =>
    have noRip : r ≠ .instructionPointer := by
      rintro rfl
      exact unscaled factor (by simp)
    simp [indexed hasIndex, hasBase, noRip]
  | second r q => simp [indexed hasIndex, hasBase, and_comm]
  | @baseFirst r q factor =>
    have noRip : q ≠ .instructionPointer := by
      rintro rfl
      exact unscaled factor (by simp)
    simp [indexed hasIndex, hasBase, noRip]
  | @indexFirst r q factor =>
    have noRip : q ≠ .instructionPointer := by
      rintro rfl
      exact unscaled factor (by simp)
    simp [indexed hasIndex, hasBase, noRip]
  | @promoted r q factor =>
    have noRip : q ≠ .instructionPointer ∧ r ≠ .instructionPointer := by
      constructor
      · rintro rfl
        exact unscaled factor (by simp)
      · rintro rfl
        exact unscaled 1 (by simp)
    simp [indexed hasIndex, hasBase, noRip]

end MemoryOperand

private theorem any_hasRegister_eq_false_iff :
    terms.any (·.term.hasRegister) = false ↔ placesOf terms = [] := by
  have none_iff (t : Term) : t.hasRegister = false ↔ t.place? = none := by
    cases t <;> simp [Term.hasRegister, Term.place?]
  simp [placesOf, none_iff]

theorem unscaled_of_isUsable (usable : ∀ t ∈ terms, t.IsUsable) (factor : UInt64) :
    (.instructionPointer, some factor) ∉ placesOf terms := by
  intro member
  obtain ⟨⟨negative, t⟩, inTerms, place⟩ := List.mem_filterMap.1 member
  have h := usable _ inTerms
  cases t with
  | scaled r own =>
    obtain ⟨rfl, -⟩ := Prod.mk.inj (Option.some.inj place)
    exact h.2.2.1 rfl
  | _ => cases place

/-- A form is a reference to memory if no register stands in front of the brackets, its terms are usable
in any order, and its registers have places in theirs. -/
theorem MemoryForm.exists_reference_iff {form : MemoryForm} :
    (∃ m, form.reference = .ok m) ↔
      placesOf form.outer = [] ∧ AreUsable form.terms ∧
        ∃ base index, Placed (placesOf form.terms) base index := by
  have start : Placed (placesOf []) none none := .none
  rw [← any_hasRegister_eq_false_iff]
  constructor
  · rintro ⟨m, h⟩
    obtain ⟨follows, -⟩ := form.follows_of_reference h
    obtain ⟨inside, run, checked⟩ := reference_eq_ok_iff.1 h
    obtain ⟨usable, placed⟩ := MemoryOperand.placed_foldlM_addTerm start (by simp) run
    refine ⟨inside, ⟨usable, ?_, ?_⟩, _, _, placed⟩
    · have labels : form.terms.filterMap (·.term.symbol?) = m.symbol.toList := follows.labels
      rw [labels]
      exact Option.length_toList_le
    · exact (MemoryOperand.checkIndex_eq_ok_iff_of_placed placed (unscaled_of_isUsable usable)).1 checked
  · rintro ⟨inside, ⟨each, symbols, relative⟩, base, index, fits⟩
    obtain ⟨m, run⟩ := MemoryOperand.exists_foldlM_addTerm form.size form.segment each symbols fits
    obtain ⟨-, placed⟩ := MemoryOperand.placed_foldlM_addTerm start (by simp) run
    have checked :=
      (MemoryOperand.checkIndex_eq_ok_iff_of_placed placed (unscaled_of_isUsable each)).2 relative
    exact ⟨m, reference_eq_ok_iff.2 ⟨inside, run, checked⟩⟩

private theorem termSum_perm (v : Valuation) (perm : terms.Perm terms') :
    termSum v terms = termSum v terms' :=
  (perm.map _).sum_eq

/-- Forms whose terms are the same in another order are both references to memory or neither, unless two
factors stand in the wrong order. -/
theorem MemoryForm.exists_reference_of_perm {form other : MemoryForm} (outer : form.outer = other.outer)
    (inner : form.inner.Perm other.inner) (ordered : ¬IsMisordered other.terms)
    (h : ∃ m, form.reference = .ok m) : ∃ m, other.reference = .ok m := by
  rw [exists_reference_iff] at h ⊢
  obtain ⟨inside, usable, base, index, placed⟩ := h
  have perm : form.terms.Perm other.terms := by
    rw [terms, terms, outer]
    exact inner.append_left _
  rw [outer] at inside
  rcases placed.perm (perm.symm.filterMap _) with fits | misordered
  · exact ⟨inside, usable.perm perm, fits⟩
  · exact absurd misordered ordered

/-- The order of the terms within brackets does not matter but for two factors.  If these stand in the
wrong order, the form is refused; two forms of which neither is such are both references or neither; and
two references have the same symbol and the same address whatever registers hold. -/
theorem MemoryForm.reference_perm {form other : MemoryForm} (outer : form.outer = other.outer)
    (inner : form.inner.Perm other.inner) :
    (IsMisordered form.terms → ∀ m, form.reference ≠ .ok m) ∧
    (¬IsMisordered form.terms → ¬IsMisordered other.terms →
      ((∃ m, form.reference = .ok m) ↔ ∃ m, other.reference = .ok m)) ∧
    ∀ m m', form.reference = .ok m → other.reference = .ok m' →
      m.symbol = m'.symbol ∧ ∀ v, m.value v ≡ m'.value v [ZMOD 2 ^ 64] := by
  refine ⟨?_, ?_, ?_⟩
  · intro misordered m h
    obtain ⟨-, -, base, index, placed⟩ := exists_reference_iff.1 ⟨m, h⟩
    exact misordered.not_placed placed
  · intro ordered ordered'
    exact ⟨exists_reference_of_perm outer inner ordered',
      exists_reference_of_perm outer.symm inner.symm ordered⟩
  · intro m m' h h'
    obtain ⟨follows, -⟩ := form.follows_of_reference h
    obtain ⟨follows', -⟩ := other.follows_of_reference h'
    have perm : form.terms.Perm other.terms := by
      rw [terms, terms, outer]
      exact inner.append_left _
    constructor
    · have labels := perm.filterMap (·.term.symbol?)
      rw [follows.labels, follows'.labels] at labels
      cases first : m.symbol <;> cases second : m'.symbol <;> simp_all
    · intro v
      have sums := follows.value v
      rw [termSum_perm v perm] at sums
      exact sums.trans (follows'.value v).symm

/-- An index written first and one written last. -/
theorem MemoryForm.reference_perm_indexFirst :
    let form : MemoryForm := ⟨some .dword, none, [⟨false, .symbol "T"⟩],
      [⟨false, .scaled (.general .qword 1) 1⟩, ⟨true, .number 8⟩, ⟨false, .register (.general .qword 0)⟩]⟩
    let other : MemoryForm := ⟨some .dword, none, [⟨false, .symbol "T"⟩],
      [⟨false, .register (.general .qword 0)⟩, ⟨false, .scaled (.general .qword 1) 1⟩, ⟨true, .number 8⟩]⟩
    form.outer = other.outer ∧ form.inner.Perm other.inner ∧
      ∃ m m', form.reference = .ok m ∧ other.reference = .ok m' ∧ m.symbol = m'.symbol ∧
        ∀ v, m.value v ≡ m'.value v [ZMOD 2 ^ 64] := by
  intro form other
  have perm : form.inner.Perm other.inner := by decide
  have outer : form.outer = other.outer := rfl
  obtain ⟨-, -, same⟩ := reference_perm outer perm
  have read : form.reference =
      .ok { size := some .dword, base := some (.general .qword 0),
            index := some (.general .qword 1, .one), displacement := -8, symbol := some "T" } := by
    decide +kernel
  have read' : other.reference =
      .ok { size := some .dword, base := some (.general .qword 0),
            index := some (.general .qword 1, .one), displacement := -8, symbol := some "T" } := by
    decide +kernel
  exact ⟨outer, perm, _, _, read, read', same _ _ read read'⟩

/-- Two orders of the same terms, of which one is accepted and the other refused. -/
theorem factor_one_behind_other :
    readOperand "[1*rax + 2*rbx]" =
      .ok (.memory { base := some (.general .qword 0), index := some (.general .qword 3, .two) }) ∧
    readOperand "[2*rbx + 1*rax]" = .error (.address .secondIndex) ∧
    (⟨none, none, [], [⟨false, .scaled (.general .qword 0) 1⟩,
      ⟨false, .scaled (.general .qword 3) 2⟩]⟩ : MemoryForm).reference =
        .ok { base := some (.general .qword 0), index := some (.general .qword 3, .two) } ∧
    (⟨none, none, [], [⟨false, .scaled (.general .qword 3) 2⟩,
      ⟨false, .scaled (.general .qword 0) 1⟩]⟩ : MemoryForm).reference = .error .secondIndex := by
  decide +kernel

end AsmTranslit
