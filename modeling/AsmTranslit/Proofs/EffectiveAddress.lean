import AsmTranslit.Proofs.GoAddressText
import AsmTranslit.Proofs.OperandGrammar
import Mathlib.Data.Int.ModEq
import Mathlib.Tactic.Ring

/-!
# Effective addresses

The address that a memory operand denotes, given what registers hold and where symbols lie.  It is
computed in three places: over the signed terms as they are written, over the operand that they are
folded into, and over the address in Go syntax.  All three agree modulo two to the power of 64.  Sums
are taken over the integers, so none of the definitions says anything of wrapping.
-/

namespace AsmTranslit

/-- What registers hold, and the addresses of Go symbols. -/
structure Valuation where
  register : Register → UInt64
  symbol : String → UInt64

/-- The same contents with zero in the instruction pointer. -/
def Valuation.withoutRip (v : Valuation) : Valuation :=
  { v with register := fun r => if r = .instructionPointer then 0 else v.register r }

def Term.register? : Term → Option Register
  | register r => some r
  | scaled r _ => some r
  | _ => none

def Term.symbol? : Term → Option String
  | symbol name => some name
  | _ => none

/-- The value of a term.  A symbol stands for the address of the table with that label. -/
def Term.value (v : Valuation) : Term → Int
  | register r => (v.register r).toNat
  | scaled r factor => (v.register r).toNat * factor.toNat
  | number n => n.toNat
  | symbol name => (v.symbol (goSymbol name)).toNat

def SignedTerm.value (v : Valuation) (t : SignedTerm) : Int :=
  if t.negative then -t.term.value v else t.term.value v

@[simp] theorem SignedTerm.value_added (v : Valuation) (t : Term) :
    SignedTerm.value v ⟨false, t⟩ = t.value v := rfl

def termSum (v : Valuation) (terms : List SignedTerm) : Int :=
  (terms.map (SignedTerm.value v)).sum

namespace MemoryForm

def terms (form : MemoryForm) : List SignedTerm :=
  form.outer ++ form.inner

def labels (form : MemoryForm) : List String :=
  form.terms.filterMap (·.term.symbol?)

def registers (form : MemoryForm) : List Register :=
  form.terms.filterMap (·.term.register?)

/-- The address that is written.  Next to a symbol the instruction pointer counts as zero, since the
symbol's distance from it is meant. -/
def address (v : Valuation) (form : MemoryForm) : Int :=
  termSum (if form.labels.isEmpty then v else v.withoutRip) form.terms

end MemoryForm

/-- The register that a name means within an address: the name without a width means all 64 bits. -/
def GoRegister.inAddress : GoRegister → Register
  | general number => .general .qword number
  | lowByte number => .general .byte number
  | highByte number => .highByte number
  | vector width number => .vector width number
  | mask number => .mask number
  | segment number => .segment number

def goIndexValue (v : Valuation) : Option (GoRegister × Scale) → Int
  | none => 0
  | some (r, scale) => (v.register r.inAddress).toNat * scale.factor

def GoAddress.value (v : Valuation) : GoAddress → Int
  | based displacement base index =>
    displacement.toInt + (v.register base.inAddress).toNat + goIndexValue v index
  | indexed displacement r scale => displacement.toInt + goIndexValue v (some (r, scale))
  | symbolic symbol offset index => (v.symbol symbol).toNat + offset.toInt + goIndexValue v index

namespace MemoryOperand

def baseValue (v : Valuation) : Option Register → Int
  | none => 0
  | some r => (v.register r).toNat

def indexValue (v : Valuation) : Option (Register × Scale) → Int
  | none => 0
  | some (r, scale) => (v.register r).toNat * scale.factor

def symbolValue (v : Valuation) : Option String → Int
  | none => 0
  | some label => (v.symbol (goSymbol label)).toNat

def value (v : Valuation) (m : MemoryOperand) : Int :=
  baseValue v m.base + indexValue v m.index + symbolValue v m.symbol + m.displacement.toInt

def registers (m : MemoryOperand) : List Register :=
  m.base.toList ++ (m.index.map Prod.fst).toList

/-- The operand is what the terms make of an address without terms. -/
structure Follows (m : MemoryOperand) (terms : List SignedTerm) : Prop where
  value : ∀ v, m.value v ≡ termSum v terms [ZMOD 2 ^ 64]
  labels : terms.filterMap (·.term.symbol?) = m.symbol.toList
  registers : ∀ r ∈ m.registers,
    r.isUsableInAddress = true ∧ r ∈ terms.filterMap (·.term.register?)

end MemoryOperand

@[simp] theorem termSum_concat (v : Valuation) (terms : List SignedTerm) (t : SignedTerm) :
    termSum v (terms ++ [t]) = termSum v terms + t.value v := by
  simp [termSum]

theorem bmod_modEq (n : Int) : n.bmod (2 ^ 64) ≡ n [ZMOD 2 ^ 64] :=
  Int.bmod_emod

theorem toInt_toInt64_modEq (n : UInt64) : n.toInt64.toInt ≡ n.toNat [ZMOD 2 ^ 64] := by
  have word : n.toInt64.toInt = (n.toNat : Int).bmod (2 ^ 64) := by
    rw [← Int64.toInt_toBitVec, UInt64.toBitVec_toInt64, BitVec.toInt_eq_toNat_bmod]
    rfl
  rw [word]
  exact bmod_modEq _

/-- The sign of a word wraps, and so agrees with the sign of an integer. -/
theorem toInt_signedWord_modEq (v : Valuation) (negative : Bool) (n : UInt64) :
    (signedWord negative n).toInt ≡ SignedTerm.value v ⟨negative, .number n⟩ [ZMOD 2 ^ 64] := by
  cases negative with
  | false => exact toInt_toInt64_modEq n
  | true =>
    have negation : (-n.toInt64).toInt ≡ -n.toInt64.toInt [ZMOD 2 ^ 64] := by
      rw [Int64.toInt_neg]
      exact bmod_modEq _
    exact negation.trans (toInt_toInt64_modEq n).neg

theorem Scale.factor_of_ofFactor? {n : UInt64} {scale : Scale} (h : ofFactor? n = some scale) :
    scale.factor = n.toNat := by
  rw [ofFactor?] at h
  split at h
  · next one => cases h; rw [one]; rfl
  split at h
  · next two => cases h; rw [two]; rfl
  split at h
  · next four => cases h; rw [four]; rfl
  split at h
  · next eight => cases h; rw [eight]; rfl
  · cases h

namespace MemoryOperand

variable {m m' : MemoryOperand} {terms : List SignedTerm}

theorem Follows.concat {t : SignedTerm} (h : m.Follows terms)
    (value : ∀ v, m'.value v ≡ m.value v + t.value v [ZMOD 2 ^ 64])
    (labels : m'.symbol.toList = m.symbol.toList ++ t.term.symbol?.toList)
    (registers : ∀ r ∈ m'.registers,
      r ∈ m.registers ∨ r.isUsableInAddress = true ∧ t.term.register? = some r) :
    m'.Follows (terms ++ [t]) where
  value v := by
    rw [termSum_concat]
    exact (value v).trans ((h.value v).add_right _)
  labels := by
    rw [List.filterMap_append, h.labels, labels]
    cases named : t.term.symbol? <;> simp [named]
  registers r hr := by
    rw [List.filterMap_append, List.mem_append]
    rcases registers r hr with old | ⟨usable, new⟩
    · obtain ⟨usable, named⟩ := h.registers r old
      exact ⟨usable, .inl named⟩
    · exact ⟨usable, .inr (by simp [new])⟩

theorem Follows.addNumber (h : m.Follows terms) (negative : Bool) (n : UInt64) :
    (m.addNumber negative n).Follows (terms ++ [⟨negative, .number n⟩]) := by
  refine h.concat ?_ ?_ fun r hr => .inl hr
  · intro v
    have sum : (m.displacement + signedWord negative n).toInt ≡
        m.displacement.toInt + (signedWord negative n).toInt [ZMOD 2 ^ 64] := by
      rw [Int64.toInt_add]
      exact bmod_modEq _
    have word := toInt_signedWord_modEq v negative n
    have total := ((sum.trans (word.add_left _)).add_left
      (baseValue v m.base + indexValue v m.index + symbolValue v m.symbol))
    rw [← add_assoc] at total
    exact total
  · exact (List.append_nil _).symm

theorem Follows.addSymbol (h : m.Follows terms) {name : String} (added : m.addSymbol name = .ok m') :
    m'.Follows (terms ++ [⟨false, .symbol name⟩]) := by
  cases symbol : m.symbol with
  | some first => simp [MemoryOperand.addSymbol, symbol] at added
  | none =>
    simp only [MemoryOperand.addSymbol, symbol, Except.ok.injEq] at added
    subst added
    refine h.concat (fun v => ?_) (by simp [symbol, Term.symbol?]) fun r hr => .inl hr
    have equal : MemoryOperand.value v { m with symbol := some name } =
        m.value v + (Term.symbol name).value v := by
      simp only [MemoryOperand.value, symbol, symbolValue, Term.value]
      ring
    rw [equal, SignedTerm.value_added]

theorem Follows.addRegister (h : m.Follows terms) {r : Register} (added : m.addRegister r = .ok m') :
    m'.Follows (terms ++ [⟨false, .register r⟩]) := by
  rw [MemoryOperand.addRegister] at added
  split at added
  · cases added
  next unusable =>
    have usable : r.isUsableInAddress = true := by simpa using unusable
    split at added
    · next base =>
      cases added
      refine h.concat (fun v => ?_) (List.append_nil _).symm fun r' hr' => ?_
      · have equal : MemoryOperand.value v { m with base := some r } =
            m.value v + (Term.register r).value v := by
          simp only [MemoryOperand.value, base, baseValue, Term.value]
          ring
        rw [equal, SignedTerm.value_added]
      · rcases List.mem_append.1 hr' with hr' | hr'
        · obtain rfl : r' = r := by simpa using hr'
          exact .inr ⟨usable, rfl⟩
        · exact .inl (List.mem_append_right _ hr')
    · next old base index =>
      cases added
      refine h.concat (fun v => ?_) (List.append_nil _).symm fun r' hr' => ?_
      · have equal : MemoryOperand.value v { m with index := some (r, .one) } =
            m.value v + (Term.register r).value v := by
          simp only [MemoryOperand.value, index, indexValue, Term.value, Scale.factor]
          ring
        rw [equal, SignedTerm.value_added]
      · rcases List.mem_append.1 hr' with hr' | hr'
        · exact .inl (List.mem_append_left _ hr')
        · obtain rfl : r' = r := by simpa using hr'
          exact .inr ⟨usable, rfl⟩
    · cases added

/-- A scaled register becomes the index.  An index of scale one that it replaces becomes the base, so
its value stays in the sum. -/
theorem Follows.addScaled (h : m.Follows terms) {r : Register} {factor : UInt64}
    (added : m.addScaled r factor = .ok m') : m'.Follows (terms ++ [⟨false, .scaled r factor⟩]) := by
  rw [MemoryOperand.addScaled] at added
  split at added
  · cases added
  next unusable =>
    have usable : r.isUsableInAddress = true := by simpa using unusable
    split at added
    · cases added
    split at added
    · cases added
    next scale known =>
      have weight : (scale.factor : Int) = factor.toNat := by
        rw [Scale.factor_of_ofFactor? known]
      split at added
      · next index =>
        cases added
        refine h.concat (fun v => ?_) (List.append_nil _).symm fun r' hr' => ?_
        · have equal : MemoryOperand.value v { m with index := some (r, scale) } =
              m.value v + (Term.scaled r factor).value v := by
            simp only [MemoryOperand.value, index, indexValue, Term.value, weight]
            ring
          rw [equal, SignedTerm.value_added]
        · rcases List.mem_append.1 hr' with hr' | hr'
          · exact .inl (List.mem_append_left _ hr')
          · obtain rfl : r' = r := by simpa using hr'
            exact .inr ⟨usable, rfl⟩
      · next unscaled index base =>
        cases added
        refine h.concat (fun v => ?_) (List.append_nil _).symm fun r' hr' => ?_
        · have equal :
              MemoryOperand.value v { m with base := some unscaled, index := some (r, scale) } =
                m.value v + (Term.scaled r factor).value v := by
            have one : (Scale.one.factor : Int) = 1 := rfl
            simp only [MemoryOperand.value, base, index, baseValue, indexValue, Term.value, weight, one]
            ring
          rw [equal, SignedTerm.value_added]
        · rcases List.mem_append.1 hr' with hr' | hr'
          · obtain rfl : r' = unscaled := by simpa using hr'
            exact .inl (by simp [MemoryOperand.registers, index])
          · obtain rfl : r' = r := by simpa using hr'
            exact .inr ⟨usable, rfl⟩
      · cases added

theorem Follows.addTerm (h : m.Follows terms) {t : SignedTerm} (added : m.addTerm t = .ok m') :
    m'.Follows (terms ++ [t]) := by
  obtain ⟨negative, t⟩ := t
  cases t with
  | number n =>
    obtain rfl : m.addNumber negative n = m' := by simpa [MemoryOperand.addTerm] using added
    exact h.addNumber negative n
  | symbol name =>
    cases negative with
    | true => simp [MemoryOperand.addTerm] at added
    | false => exact h.addSymbol added
  | register r =>
    cases negative with
    | true => simp [MemoryOperand.addTerm] at added
    | false => exact h.addRegister added
  | scaled r factor =>
    cases negative with
    | true => simp [MemoryOperand.addTerm] at added
    | false => exact h.addScaled added

theorem Follows.foldlM_addTerm {later : List SignedTerm} (h : m.Follows terms)
    (run : later.foldlM MemoryOperand.addTerm m = .ok m') : m'.Follows (terms ++ later) := by
  induction later generalizing m terms with
  | nil =>
    obtain rfl : m = m' := by simpa [pure, Except.pure] using run
    simpa using h
  | cons t later ih =>
    rw [List.foldlM_cons, bind_eq_ok_iff] at run
    obtain ⟨next, added, run⟩ := run
    simpa using ih (h.addTerm added) run

end MemoryOperand

theorem MemoryOperand.checkIndex_eq_ok_iff {m m' : MemoryOperand} :
    m.checkIndex = .ok m' ↔ m' = m ∧ ∀ r scale, m.index = some (r, scale) →
      r ≠ .instructionPointer ∧ m.base ≠ some .instructionPointer := by
  rw [checkIndex]
  cases m.index with
  | none => simp [eq_comm (a := m)]
  | some entry =>
    obtain ⟨r, scale⟩ := entry
    by_cases isRip : r = .instructionPointer <;>
      by_cases relative : m.base = some .instructionPointer <;>
        simp [isRip, relative, isRipRelative, eq_comm (a := m)]

theorem MemoryOperand.checkIndex_eq_ok {m m' : MemoryOperand} (h : m.checkIndex = .ok m') :
    m' = m ∧ (m.isRipRelative = true → m.index = none) := by
  obtain ⟨same, allowed⟩ := checkIndex_eq_ok_iff.1 h
  refine ⟨same, fun relative => ?_⟩
  cases index : m.index with
  | none => rfl
  | some entry => exact absurd (by simpa [isRipRelative] using relative) (allowed _ _ index).2

theorem MemoryForm.reference_eq_ok_iff {form : MemoryForm} {m : MemoryOperand} :
    form.reference = .ok m ↔ form.outer.any (·.term.hasRegister) = false ∧
      form.terms.foldlM MemoryOperand.addTerm { size := form.size, segment := form.segment } = .ok m ∧
      m.checkIndex = .ok m := by
  rw [reference, terms]
  cases form.outer.any (·.term.hasRegister) with
  | true => simp
  | false =>
    rw [if_neg Bool.false_ne_true, bind_eq_ok_iff]
    constructor
    · rintro ⟨m', run, checked⟩
      obtain ⟨rfl, -⟩ := MemoryOperand.checkIndex_eq_ok checked
      exact ⟨rfl, run, checked⟩
    · rintro ⟨-, run, checked⟩
      exact ⟨m, run, checked⟩

theorem MemoryForm.follows_of_reference {form : MemoryForm} {m : MemoryOperand}
    (h : form.reference = .ok m) :
    m.Follows form.terms ∧ (m.isRipRelative = true → m.index = none) := by
  obtain ⟨-, run, checked⟩ := reference_eq_ok_iff.1 h
  have start : MemoryOperand.Follows { size := form.size, segment := form.segment } [] := {
    value := fun v => .refl _
    labels := rfl
    registers := fun r hr => by cases hr }
  exact ⟨start.foldlM_addTerm run, (MemoryOperand.checkIndex_eq_ok checked).2⟩

theorem renderAddressRegister_eq_ok {r : Register} {g : GoRegister} (usable : r.isUsableInAddress)
    (h : renderAddressRegister r = .ok g) : ∃ n, r = .general .qword n ∧ g = .general n := by
  unfold Register.isUsableInAddress at usable
  split at usable
  · next n =>
    cases h
    exact ⟨n, rfl, rfl⟩
  · cases h
  · cases h
  · cases usable

theorem renderIndex_eq_ok {index : Option (Register × Scale)} {go : Option (GoRegister × Scale)}
    (usable : ∀ r ∈ (index.map Prod.fst).toList, r.isUsableInAddress)
    (h : renderIndex index = .ok go) :
    (∀ v, goIndexValue v go = MemoryOperand.indexValue v index) ∧
      ∀ g ∈ (go.map Prod.fst).toList, ∃ n, g = .general n ∧
        .general .qword n ∈ (index.map Prod.fst).toList := by
  cases index with
  | none =>
    cases h
    exact ⟨fun v => rfl, fun g hg => by cases hg⟩
  | some entry =>
    obtain ⟨r, scale⟩ := entry
    simp only [renderIndex, bind_eq_ok_iff] at h
    obtain ⟨g, rendered, equal⟩ := h
    cases equal
    obtain ⟨n, rfl, rfl⟩ := renderAddressRegister_eq_ok (usable r (by simp)) rendered
    refine ⟨fun v => rfl, fun g hg => ⟨n, ?_, by simp⟩⟩
    simpa using hg

/-- An address in Go syntax keeps the value of an operand, the symbol and the registers.  A base of
the instruction pointer is left out of it, and has to count for nothing. -/
structure MemoryOperand.RenderedAs (m : MemoryOperand) (a : GoAddress) : Prop where
  value : ∀ v, (m.isRipRelative = true → v.register .instructionPointer = 0) → a.value v = m.value v
  symbol : a.symbol? = m.symbol.map goSymbol
  registers : ∀ g ∈ a.registers, ∃ n, g = .general n ∧ .general .qword n ∈ m.registers

theorem renderedAs_of_renderPlainAddress {m : MemoryOperand} {a : GoAddress}
    (usable : ∀ r ∈ m.registers, r.isUsableInAddress) (symbol : m.symbol = none)
    (h : renderPlainAddress m = .ok a) : m.RenderedAs a := by
  rw [renderPlainAddress] at h
  split at h
  · cases h
  · next base hasBase =>
    simp only [bind_eq_ok_iff] at h
    obtain ⟨g, renderedBase, go, renderedIndex, equal⟩ := h
    cases equal
    obtain ⟨n, rfl, rfl⟩ :=
      renderAddressRegister_eq_ok (usable base (by simp [MemoryOperand.registers, hasBase]))
        renderedBase
    obtain ⟨indexValue, indexRegisters⟩ :=
      renderIndex_eq_ok (fun r hr => usable r (List.mem_append_right _ hr)) renderedIndex
    constructor
    · intro v _
      simp only [GoAddress.value, MemoryOperand.value, hasBase, symbol, indexValue,
        MemoryOperand.baseValue, MemoryOperand.symbolValue, GoRegister.inAddress]
      ring
    · simp [GoAddress.symbol?, symbol]
    · intro g hg
      rcases List.mem_cons.1 hg with rfl | hg
      · exact ⟨n, rfl, by simp [MemoryOperand.registers, hasBase]⟩
      · obtain ⟨k, wide, named⟩ := indexRegisters g hg
        exact ⟨k, wide, List.mem_append_right _ named⟩
  · next r scale hasBase hasIndex =>
    simp only [bind_eq_ok_iff] at h
    obtain ⟨g, rendered, equal⟩ := h
    cases equal
    have named : r ∈ m.registers := by simp [MemoryOperand.registers, hasIndex]
    obtain ⟨n, rfl, rfl⟩ := renderAddressRegister_eq_ok (usable r named) rendered
    constructor
    · intro v _
      simp only [GoAddress.value, MemoryOperand.value, hasBase, hasIndex, symbol, goIndexValue,
        MemoryOperand.baseValue, MemoryOperand.indexValue, MemoryOperand.symbolValue,
        GoRegister.inAddress]
      ring
    · simp [GoAddress.symbol?, symbol]
    · intro g hg
      obtain rfl : g = .general n := by simpa [GoAddress.registers] using hg
      exact ⟨n, rfl, named⟩

/-- The index of a place in a table stands for all registers of the operand. -/
theorem tableIndex_eq_ok {label : String} {m : MemoryOperand} {index : Option (Register × Scale)}
    (noIndex : m.isRipRelative = true → m.index = none) (h : tableIndex label m = .ok index) :
    (∀ v, (m.isRipRelative = true → v.register .instructionPointer = 0) →
      MemoryOperand.indexValue v index =
        MemoryOperand.baseValue v m.base + MemoryOperand.indexValue v m.index) ∧
      ∀ r ∈ (index.map Prod.fst).toList, r ∈ m.registers := by
  rw [tableIndex] at h
  split at h
  · next relative =>
    cases h
    have base : m.base = some .instructionPointer := by
      simpa [MemoryOperand.isRipRelative] using relative
    refine ⟨fun v zero => ?_, fun r hr => by cases hr⟩
    simp [base, noIndex relative, MemoryOperand.baseValue, MemoryOperand.indexValue, zero relative]
  · split at h
    · next hasBase =>
      cases h
      refine ⟨fun v _ => ?_, fun r hr => List.mem_append_right _ hr⟩
      simp [hasBase, MemoryOperand.baseValue]
    · next base hasBase hasIndex =>
      cases h
      refine ⟨fun v _ => ?_, fun r hr => ?_⟩
      · simp [hasBase, hasIndex, MemoryOperand.baseValue, MemoryOperand.indexValue, Scale.factor]
      · obtain rfl : r = base := by simpa using hr
        simp [MemoryOperand.registers, hasBase]
    · cases h

private theorem renderedAs_of_renderTableReference {tables : List DataTable} {label : String}
    {m : MemoryOperand} {a : GoAddress} (usable : ∀ r ∈ m.registers, r.isUsableInAddress)
    (noIndex : m.isRipRelative = true → m.index = none) (symbol : m.symbol = some label)
    (h : renderTableReference tables label m = .ok a) :
    m.RenderedAs a ∧ ∃ table ∈ tables, table.label = label := by
  rw [renderTableReference] at h
  split at h
  · cases h
  · next table found =>
    have member := List.mem_of_find?_eq_some found
    have named : table.label = label := by simpa using List.find?_some found
    simp only [bind_eq_ok_iff] at h
    obtain ⟨index, place, go, rendered, equal⟩ := h
    cases equal
    obtain ⟨placeValue, placeRegisters⟩ := tableIndex_eq_ok noIndex place
    obtain ⟨indexValue, indexRegisters⟩ :=
      renderIndex_eq_ok (fun r hr => usable r (placeRegisters r hr)) rendered
    refine ⟨?_, table, member, named⟩
    constructor
    · intro v zero
      simp only [GoAddress.value, MemoryOperand.value, symbol, indexValue, placeValue v zero,
        MemoryOperand.symbolValue, DataTable.symbol, named]
      ring
    · simp [GoAddress.symbol?, symbol, DataTable.symbol, named]
    · intro g hg
      obtain ⟨n, wide, inIndex⟩ := indexRegisters g hg
      exact ⟨n, wide, placeRegisters _ inIndex⟩

/-- An address without a symbol is not relative to the instruction pointer. -/
theorem renderedAs_of_renderMemory {tables : List DataTable} {m : MemoryOperand} {a : GoAddress}
    (usable : ∀ r ∈ m.registers, r.isUsableInAddress)
    (noIndex : m.isRipRelative = true → m.index = none) (h : renderMemory tables m = .ok a) :
    m.RenderedAs a ∧ (∀ label ∈ m.symbol, ∃ table ∈ tables, table.label = label) ∧
      (m.symbol = none → m.isRipRelative = false) := by
  rw [renderMemory] at h
  split at h
  · cases h
  · split at h
    · next label symbol =>
      obtain ⟨rendered, table⟩ := renderedAs_of_renderTableReference usable noIndex symbol h
      refine ⟨rendered, fun label' named => ?_, fun none => ?_⟩
      · obtain rfl : label = label' := by simpa [symbol] using named
        exact table
      · simp [symbol] at none
    · next symbol =>
      split at h
      · cases h
      · next relative =>
        refine ⟨renderedAs_of_renderPlainAddress usable symbol h, ?_, fun _ => by simpa using relative⟩
        simp [symbol]

private theorem GoAddress.value_withoutRip (v : Valuation) (a : GoAddress) :
    a.value v.withoutRip = a.value v := by
  have kept (r : GoRegister) : v.withoutRip.register r.inAddress = v.register r.inAddress := by
    cases r <;> simp [Valuation.withoutRip, GoRegister.inAddress]
  have keptIndex (index : Option (GoRegister × Scale)) :
      goIndexValue v.withoutRip index = goIndexValue v index := by
    cases index with
    | none => rfl
    | some entry => simp [goIndexValue, kept]
  cases a with
  | based displacement base index => simp [value, kept, keptIndex]
  | indexed displacement r scale => simp [value, keptIndex]
  | symbolic symbol offset index =>
    rw [value, keptIndex]
    rfl

/-- The tokens of a memory operand spell exactly one form, and the text of its rendering, read as Go
syntax, denotes the address that is written there.  It names the Go symbol of the one table that the
operand names, if it names any, and of the operand's registers those of 64 bits alone. -/
theorem effectiveAddress_renderMemory {text : String} {m : MemoryOperand} {tables : List DataTable}
    {a : GoAddress} (read : readOperand text = .ok (.memory m))
    (rendered : renderMemory tables m = .ok a) :
    ∃ form : MemoryForm, (∀ other : MemoryForm, other.Spelling (tokens text) ↔ other = form) ∧
      GoAddress.ofText? a.text = some a ∧
      (∀ v, a.value v ≡ form.address v [ZMOD 2 ^ 64]) ∧
      (∀ symbol, a.symbol? = some symbol ↔
        ∃ table ∈ tables, table.label ∈ form.labels ∧ table.symbol = symbol) ∧
      ∀ r ∈ a.registers, ∃ n, r = .general n ∧ .general .qword n ∈ form.registers := by
  obtain ⟨form, spelled, denotes⟩ := readTokens_eq_memory read
  obtain ⟨follows, noIndex⟩ := form.follows_of_reference denotes
  have usable : ∀ r ∈ m.registers, r.isUsableInAddress := fun r hr => (follows.registers r hr).1
  obtain ⟨same, tableOf, notRelative⟩ := renderedAs_of_renderMemory usable noIndex rendered
  have labels : form.labels = m.symbol.toList := follows.labels
  have wide : ∀ r ∈ a.registers, ∃ n, r = .general n ∧ .general .qword n ∈ form.registers := by
    intro r hr
    obtain ⟨n, wide, named⟩ := same.registers r hr
    exact ⟨n, wide, (follows.registers _ named).2⟩
  refine ⟨form, fun other => ?_, ?_, fun v => ?_, fun symbol => ?_, wide⟩
  · constructor
    · intro spelled'
      exact spelled'.unique spelled
    · rintro rfl
      exact spelled
  · apply GoAddress.ofText?_text
    · intro r hr
      obtain ⟨n, equal, -⟩ := wide r hr
      exact ⟨n, equal⟩
    · intro symbol named
      rw [same.symbol] at named
      obtain ⟨label, -, equal⟩ := Option.map_eq_some_iff.1 named
      exact ⟨label, equal.symm⟩
  · -- without a symbol the operand is not relative to the instruction pointer, with one that is zero
    cases symbol : m.symbol with
    | none =>
      have plain : a.value v = m.value v := same.value v (by simp [notRelative symbol])
      have address : form.address v = termSum v form.terms := by
        simp [MemoryForm.address, labels, symbol]
      rw [plain, address]
      exact follows.value v
    | some label =>
      have zero : v.withoutRip.register .instructionPointer = 0 := by
        simp [Valuation.withoutRip]
      have relative : a.value v = m.value v.withoutRip := by
        rw [← a.value_withoutRip v]
        exact same.value v.withoutRip fun _ => zero
      have address : form.address v = termSum v.withoutRip form.terms := by
        simp [MemoryForm.address, labels, symbol]
      rw [relative, address]
      exact follows.value v.withoutRip
  · rw [same.symbol, labels, Option.map_eq_some_iff]
    constructor
    · rintro ⟨label, named, rfl⟩
      obtain ⟨table, member, rfl⟩ := tableOf label named
      exact ⟨table, member, by simpa using named, rfl⟩
    · rintro ⟨table, -, named, rfl⟩
      exact ⟨table.label, by simpa using named, rfl⟩

/-- An offset that wraps, and an index of scale one, in front of a table's symbol. -/
theorem effectiveAddress_renderMemory_wrapping :
    readOperand ".LC0-8[1*rcx + 0xffffffffffffffff]" =
        .ok (.memory { index := some (.general .qword 1, .one), displacement := -9,
                       symbol := some ".LC0" }) ∧
      renderMemory [⟨".LC0", 16, []⟩] { index := some (.general .qword 1, .one), displacement := -9,
                                         symbol := some ".LC0" } =
        .ok (.symbolic "LC0<>" (-9) (some (.general 1, .one))) ∧
      ∃ form : MemoryForm,
        (∀ other : MemoryForm,
          other.Spelling (tokens ".LC0-8[1*rcx + 0xffffffffffffffff]") ↔ other = form) ∧
        GoAddress.ofText? "LC0<>-9(SB)(CX*1)" =
          some (.symbolic "LC0<>" (-9) (some (.general 1, .one))) ∧
        (∀ v, (GoAddress.symbolic "LC0<>" (-9) (some (.general 1, .one))).value v ≡
          form.address v [ZMOD 2 ^ 64]) ∧
        (∀ symbol, some "LC0<>" = some symbol ↔
          ∃ table ∈ [(⟨".LC0", 16, []⟩ : DataTable)], table.label ∈ form.labels ∧
            table.symbol = symbol) ∧
        ∀ r ∈ [GoRegister.general 1], ∃ n, r = .general n ∧ .general .qword n ∈ form.registers := by
  have read : readOperand ".LC0-8[1*rcx + 0xffffffffffffffff]" =
      .ok (.memory { index := some (.general .qword 1, .one), displacement := -9,
                     symbol := some ".LC0" }) := by
    decide +kernel
  have rendered : renderMemory [⟨".LC0", 16, []⟩]
      { index := some (.general .qword 1, .one), displacement := -9, symbol := some ".LC0" } =
        .ok (.symbolic "LC0<>" (-9) (some (.general 1, .one))) := by
    decide +kernel
  exact ⟨read, rendered, effectiveAddress_renderMemory read rendered⟩

end AsmTranslit
