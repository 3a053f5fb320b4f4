import AsmTranslit.Proofs.RegisterWeights

/-!
# Index registers

Which register an address has for its index, the one that is written with a scale.  It is that of the
last term with a factor, or else the second register, or next to a symbol the only one.  The processor
has no index `rsp`, and nothing keeps that register from the place of the index: where it gets there,
the address stands in the output as it is, whether it could be written in another way or not.
-/

namespace AsmTranslit

def Term.scaled? : Term → Option Register
  | scaled r _ => some r
  | _ => none

def registersOf (terms : List SignedTerm) : List Register :=
  terms.filterMap (·.term.register?)

def scaledRegistersOf (terms : List SignedTerm) : List Register :=
  terms.filterMap (·.term.scaled?)

theorem registersOf_concat (terms : List SignedTerm) (t : SignedTerm) :
    registersOf (terms ++ [t]) = registersOf terms ++ t.term.register?.toList := by
  rw [registersOf, List.filterMap_append, ← registersOf]
  cases named : t.term.register? <;> simp [named]

theorem scaledRegistersOf_concat (terms : List SignedTerm) (t : SignedTerm) :
    scaledRegistersOf (terms ++ [t]) = scaledRegistersOf terms ++ t.term.scaled?.toList := by
  rw [scaledRegistersOf, List.filterMap_append, ← scaledRegistersOf]
  cases named : t.term.scaled? <;> simp [named]

/-- The register that a form has for an index.  Next to a symbol a register alone is an index. -/
def MemoryForm.indexRegister? (form : MemoryForm) : Option Register :=
  (scaledRegistersOf form.terms).getLast?.or
    (if form.labels.isEmpty then (registersOf form.terms)[1]? else (registersOf form.terms)[0]?)

def Register.stackPointer : Register :=
  .general .qword ⟨4, by decide⟩

def GoRegister.stackPointer : GoRegister :=
  .general ⟨4, by decide⟩

namespace MemoryOperand

/-- What an operand becomes with one more term. -/
inductive Takes (m : MemoryOperand) : SignedTerm → MemoryOperand → Prop
  | number (negative : Bool) (n : UInt64) : Takes m ⟨negative, .number n⟩ (m.addNumber negative n)
  | symbol (name : String) (free : m.symbol = none) :
    Takes m ⟨false, .symbol name⟩ { m with symbol := some name }
  | base (r : Register) (free : m.base = none) :
    Takes m ⟨false, .register r⟩ { m with base := some r }
  | second {old : Register} (r : Register) (taken : m.base = some old) (free : m.index = none) :
    Takes m ⟨false, .register r⟩ { m with index := some (r, .one) }
  | index (r : Register) {factor : UInt64} {scale : Scale}
    (known : Scale.ofFactor? factor = some scale) (free : m.index = none) :
    Takes m ⟨false, .scaled r factor⟩ { m with index := some (r, scale) }
  /-- An index of scale one gives way to another and becomes the base. -/
  | promoted {unscaled : Register} (r : Register) {factor : UInt64} {scale : Scale}
    (known : Scale.ofFactor? factor = some scale) (taken : m.index = some (unscaled, .one))
    (free : m.base = none) :
    Takes m ⟨false, .scaled r factor⟩ { m with base := some unscaled, index := some (r, scale) }

variable {m m' : MemoryOperand} {terms later : List SignedTerm} {t : SignedTerm}

private theorem takes_of_addRegister {r : Register} (h : m.addRegister r = .ok m') :
    m.Takes ⟨false, .register r⟩ m' := by
  rw [addRegister] at h
  split at h
  case isTrue => cases h
  case isFalse =>
    split at h
    case h_1 free =>
      obtain rfl := Except.ok.inj h
      exact .base r free
    case h_2 old taken free =>
      obtain rfl := Except.ok.inj h
      exact .second r taken free
    case h_3 => cases h

private theorem takes_of_addScaled {r : Register} {factor : UInt64} (h : m.addScaled r factor = .ok m') :
    m.Takes ⟨false, .scaled r factor⟩ m' := by
  rw [addScaled] at h
  split at h
  case isTrue => cases h
  case isFalse =>
    split at h
    case isTrue => cases h
    case isFalse =>
      split at h
      case h_1 => cases h
      case h_2 scale known =>
        split at h
        case h_1 free =>
          obtain rfl := Except.ok.inj h
          exact .index r known free
        case h_2 unscaled taken free =>
          obtain rfl := Except.ok.inj h
          exact .promoted r known taken free
        case h_3 => cases h

theorem takes_of_addTerm (h : m.addTerm t = .ok m') : m.Takes t m' := by
  obtain ⟨negative, t⟩ := t
  cases t with
  | number n =>
    obtain rfl : m.addNumber negative n = m' := by simpa [addTerm] using h
    exact .number negative n
  | symbol name =>
    cases negative with
    | true => simp [addTerm] at h
    | false =>
      cases taken : m.symbol with
      | some first => simp [addTerm, addSymbol, taken] at h
      | none =>
        obtain rfl : { m with symbol := some name } = m' := by simpa [addTerm, addSymbol, taken] using h
        exact .symbol name taken
  | register r =>
    cases negative with
    | true => simp [addTerm] at h
    | false => exact takes_of_addRegister h
  | scaled r factor =>
    cases negative with
    | true => simp [addTerm] at h
    | false => exact takes_of_addScaled h

/-- The operand has the registers of the terms, each as many times as they count it, and for an index
that of the last term with a factor or else the second. -/
structure Arranges (m : MemoryOperand) (terms : List SignedTerm) : Prop where
  registers : (registersOf terms).Perm m.registers
  weight : ∀ r, termWeight r terms = m.weight r
  index : m.index.map Prod.fst =
    (scaledRegistersOf terms).getLast?.or (registersOf terms)[1]?

theorem Arranges.scaledRegistersOf_eq_nil (h : m.Arranges terms) (free : m.index = none) :
    scaledRegistersOf terms = [] := by
  have index := h.index
  rw [free, Option.map_none, eq_comm, Option.or_eq_none_iff] at index
  exact List.getLast?_eq_none_iff.1 index.1

theorem Arranges.registersOf_eq_of_free (h : m.Arranges terms) (free : m.base = none ∨ m.index = none) :
    registersOf terms = m.registers := by
  have same := h.registers
  rcases free with free | free
  · cases index : m.index with
    | none =>
      rw [MemoryOperand.registers, free, index] at same ⊢
      exact same.eq_nil
    | some entry =>
      rw [MemoryOperand.registers, free, index] at same ⊢
      exact List.perm_singleton.1 same
  · cases base : m.base with
    | none =>
      rw [MemoryOperand.registers, free, base] at same ⊢
      exact same.eq_nil
    | some b =>
      rw [MemoryOperand.registers, free, base] at same ⊢
      exact List.perm_singleton.1 same

theorem Arranges.concat_of_none (h : m.Arranges terms) (noRegister : t.term.register? = none)
    (base : m'.base = m.base) (index : m'.index = m.index) : m'.Arranges (terms ++ [t]) := by
  have noFactor : t.term.scaled? = none := by
    cases same : t.term <;> simp_all [Term.register?, Term.scaled?]
  have noWeight (r : Register) : t.term.weight r = 0 := by
    cases same : t.term <;> simp_all [Term.register?, Term.weight]
  constructor
  · rw [registersOf_concat, noRegister, Option.toList_none, List.append_nil, MemoryOperand.registers,
      base, index]
    exact h.registers
  · intro r
    rw [termWeight_concat, noWeight, Nat.add_zero, h.weight, MemoryOperand.weight, MemoryOperand.weight,
      base, index]
  · rw [registersOf_concat, scaledRegistersOf_concat, noRegister, noFactor, Option.toList_none,
      List.append_nil, List.append_nil, index]
    exact h.index

theorem Arranges.takes (h : m.Arranges terms) (step : m.Takes t m') : m'.Arranges (terms ++ [t]) := by
  cases step with
  | number negative n => exact h.concat_of_none rfl rfl rfl
  | symbol name free => exact h.concat_of_none rfl rfl rfl
  | base r free =>
    have before := h.registersOf_eq_of_free (.inl free)
    rw [MemoryOperand.registers, free, Option.toList_none, List.nil_append] at before
    constructor
    · rw [registersOf_concat, before]
      exact List.perm_append_comm
    · intro own
      rw [termWeight_concat, h.weight]
      simp [MemoryOperand.weight, Term.weight, free, Nat.add_comm]
    · rw [registersOf_concat, scaledRegistersOf_concat, before]
      cases index : m.index with
      | none => simp [Term.scaled?, h.scaledRegistersOf_eq_nil index]
      | some entry =>
        -- the only register before this one is the index, and so has a factor
        have last : (scaledRegistersOf terms).getLast? = some entry.1 := by
          simpa [before, index, eq_comm] using h.index
        simp [Term.scaled?, last]
  | second r taken free =>
    have before := h.registersOf_eq_of_free (.inr free)
    rw [MemoryOperand.registers, free, taken] at before
    constructor
    · rw [registersOf_concat, before, MemoryOperand.registers, taken]
      exact .refl _
    · intro own
      rw [termWeight_concat, h.weight]
      simp [MemoryOperand.weight, Term.weight, free, indexWeight, Scale.factor]
    · rw [registersOf_concat, scaledRegistersOf_concat, before, h.scaledRegistersOf_eq_nil free]
      rfl
  | index r known free =>
    have before := h.registersOf_eq_of_free (.inr free)
    rw [MemoryOperand.registers, free, Option.map_none, Option.toList_none, List.append_nil] at before
    constructor
    · rw [registersOf_concat, before]
      exact .refl _
    · intro own
      rw [termWeight_concat, h.weight]
      simp [MemoryOperand.weight, Term.weight, free, indexWeight, Scale.factor_of_ofFactor? known]
    · rw [registersOf_concat, scaledRegistersOf_concat]
      simp [Term.scaled?]
  | promoted r known taken free =>
    have before := h.registersOf_eq_of_free (.inl free)
    rw [MemoryOperand.registers, free, taken] at before
    constructor
    · rw [registersOf_concat, before]
      exact .refl _
    · intro own
      have one : Scale.one.factor = 1 := rfl
      rw [termWeight_concat, h.weight]
      simp [MemoryOperand.weight, Term.weight, free, taken, indexWeight, one,
        Scale.factor_of_ofFactor? known]
    · rw [registersOf_concat, scaledRegistersOf_concat]
      simp [Term.scaled?]

theorem Arranges.foldlM_addTerm (h : m.Arranges terms)
    (run : later.foldlM MemoryOperand.addTerm m = .ok m') : m'.Arranges (terms ++ later) := by
  induction later generalizing m terms with
  | nil =>
    obtain rfl : m = m' := by simpa [pure, Except.pure] using run
    simpa using h
  | cons t later ih =>
    rw [List.foldlM_cons, bind_eq_ok_iff] at run
    obtain ⟨next, added, run⟩ := run
    simpa using ih (h.takes (takes_of_addTerm added)) run

end MemoryOperand

private theorem MemoryForm.arranges_of_reference {form : MemoryForm} {m : MemoryOperand}
    (h : form.reference = .ok m) : m.Arranges form.terms := by
  obtain ⟨-, run, -⟩ := reference_eq_ok_iff.1 h
  have start : MemoryOperand.Arranges { size := form.size, segment := form.segment } [] :=
    ⟨.refl _, fun _ => rfl, rfl⟩
  exact start.foldlM_addTerm run

/-- What the index of a place in a table is.  The instruction pointer counts for nothing, and of the two
places for other registers only one can be taken. -/
inductive MemoryOperand.TableIndex (m : MemoryOperand) : Option (Register × Scale) → Prop
  | relative (base : m.base = some .instructionPointer) : TableIndex m none
  | index (free : m.base = none) : TableIndex m m.index
  | base {b : Register} (taken : m.base = some b) (free : m.index = none) :
    TableIndex m (some (b, .one))

private theorem tableIndex_of_eq_ok {label : String} {m : MemoryOperand}
    {index : Option (Register × Scale)}
    (h : tableIndex label m = .ok index) : m.TableIndex index := by
  rw [tableIndex] at h
  split at h
  case isTrue relative =>
    obtain rfl := Except.ok.inj h
    exact .relative (by simpa [MemoryOperand.isRipRelative] using relative)
  case isFalse =>
    split at h
    case h_1 free =>
      obtain rfl := Except.ok.inj h
      exact .index free
    case h_2 b taken free =>
      obtain rfl := Except.ok.inj h
      exact .base taken free
    case h_3 => cases h

theorem renderMemory_eq_ok_cases {tables : List DataTable} {m : MemoryOperand} {a : GoAddress}
    (h : renderMemory tables m = .ok a) :
    (m.symbol ≠ none ∧ ∃ symbol index go, m.TableIndex index ∧ renderIndex index = .ok go ∧
      a = .symbolic symbol m.displacement go) ∨ (m.symbol = none ∧ renderPlainAddress m = .ok a) := by
  rw [renderMemory] at h
  split at h
  case h_1 => cases h
  case h_2 =>
    split at h
    case h_1 label symbol =>
      rw [renderTableReference] at h
      split at h
      case h_1 => cases h
      case h_2 table found =>
        simp only [bind_eq_ok_iff] at h
        obtain ⟨index, place, go, rendered, equal⟩ := h
        exact .inl ⟨by simp [symbol], table.symbol, index, go, tableIndex_of_eq_ok place, rendered,
          (Except.ok.inj equal).symm⟩
    case h_2 symbol =>
      split at h
      case isTrue => cases h
      case isFalse => exact .inr ⟨symbol, h⟩

theorem renderIndex_eq_general {index : Option (Register × Scale)} {go : Option (GoRegister × Scale)}
    (usable : ∀ r ∈ (index.map Prod.fst).toList, r.isUsableInAddress)
    (h : renderIndex index = .ok go) (n : Fin 16) :
    (go.map Prod.fst = some (.general n) ↔ index.map Prod.fst = some (.general .qword n)) ∧
      indexWeight (.general n) go = indexWeight (.general .qword n) index := by
  cases index with
  | none =>
    cases h
    simp [indexWeight]
  | some entry =>
    obtain ⟨r, scale⟩ := entry
    simp only [renderIndex, bind_eq_ok_iff] at h
    obtain ⟨g, rendered, equal⟩ := h
    cases equal
    obtain ⟨k, rfl, rfl⟩ := renderAddressRegister_eq_ok (usable r (by simp)) rendered
    simp [indexWeight]

private theorem general_of_renderPlainAddress {m : MemoryOperand} {a : GoAddress}
    (usable : ∀ r ∈ m.registers, r.isUsableInAddress) (h : renderPlainAddress m = .ok a) (n : Fin 16) :
    (a.index? = some (.general n) ↔ m.index.map Prod.fst = some (.general .qword n)) ∧
      a.weight (.general n) = m.weight (.general .qword n) := by
  rw [renderPlainAddress] at h
  split at h
  case h_1 => cases h
  case h_2 base hasBase =>
    simp only [bind_eq_ok_iff] at h
    obtain ⟨g, renderedBase, go, renderedIndex, equal⟩ := h
    cases equal
    have named : base ∈ m.registers := by simp [MemoryOperand.registers, hasBase]
    obtain ⟨k, rfl, rfl⟩ := renderAddressRegister_eq_ok (usable base named) renderedBase
    obtain ⟨index, weight⟩ :=
      renderIndex_eq_general (fun r hr => usable r (List.mem_append_right _ hr)) renderedIndex n
    refine ⟨index, ?_⟩
    rw [GoAddress.weight, weight, MemoryOperand.weight, hasBase]
    simp
  case h_3 r scale hasBase hasIndex =>
    simp only [bind_eq_ok_iff] at h
    obtain ⟨g, rendered, equal⟩ := h
    cases equal
    have named : r ∈ m.registers := by simp [MemoryOperand.registers, hasIndex]
    obtain ⟨k, rfl, rfl⟩ := renderAddressRegister_eq_ok (usable r named) rendered
    simp [GoAddress.index?, GoAddress.weight, MemoryOperand.weight, indexWeight, hasBase, hasIndex]

/-- Next to a symbol the operand has one register at most, and that is the index. -/
theorem general_of_tableIndex {m : MemoryOperand} {index : Option (Register × Scale)}
    {go : Option (GoRegister × Scale)} (usable : ∀ r ∈ m.registers, r.isUsableInAddress)
    (noIndex : m.isRipRelative = true → m.index = none) (place : m.TableIndex index)
    (rendered : renderIndex index = .ok go) (n : Fin 16) :
    (m.base = none ∨ m.index = none) ∧
      (go.map Prod.fst = some (.general n) ↔ m.registers[0]? = some (.general .qword n)) ∧
      indexWeight (.general n) go = m.weight (.general .qword n) := by
  cases place with
  | relative base =>
    cases rendered
    have relative : m.isRipRelative = true := by simp [MemoryOperand.isRipRelative, base]
    refine ⟨.inr (noIndex relative), ?_⟩
    simp [MemoryOperand.registers, MemoryOperand.weight, indexWeight, base, noIndex relative]
  | index free =>
    obtain ⟨same, weight⟩ :=
      renderIndex_eq_general (fun r hr => usable r (List.mem_append_right _ hr)) rendered n
    refine ⟨.inl free, ?_, ?_⟩
    · rw [same]
      cases index : m.index <;> simp [MemoryOperand.registers, free, index]
    · simp [weight, MemoryOperand.weight, free]
  | @base b taken free =>
    have named : b ∈ m.registers := by simp [MemoryOperand.registers, taken]
    obtain ⟨same, weight⟩ := renderIndex_eq_general (by simpa using usable b named) rendered n
    refine ⟨.inr free, ?_, ?_⟩
    · simp [same, MemoryOperand.registers, taken]
    · rw [weight]
      simp [MemoryOperand.weight, indexWeight, taken, free, Scale.factor]

/-- The index of a rendered address is the register that the form has for one, and the address counts
registers like the terms. -/
theorem general_of_renderMemory {tables : List DataTable} {form : MemoryForm} {m : MemoryOperand}
    {a : GoAddress} (denotes : form.reference = .ok m) (rendered : renderMemory tables m = .ok a)
    (n : Fin 16) :
    (a.index? = some (.general n) ↔ form.indexRegister? = some (.general .qword n)) ∧
      a.weight (.general n) = termWeight (.general .qword n) form.terms ∧
      a.symbol?.isSome = !form.labels.isEmpty := by
  obtain ⟨follows, noIndex⟩ := form.follows_of_reference denotes
  have arranged := form.arranges_of_reference denotes
  have usable : ∀ r ∈ m.registers, r.isUsableInAddress := fun r hr => (follows.registers r hr).1
  have labels : form.labels = m.symbol.toList := follows.labels
  rw [arranged.weight]
  rcases renderMemory_eq_ok_cases rendered with
    ⟨symbol, _, index, go, place, renders, rfl⟩ | ⟨symbol, plain⟩
  · obtain ⟨single, same, weight⟩ := general_of_tableIndex usable noIndex place renders n
    have named : form.labels.isEmpty = false := by
      obtain ⟨label, known⟩ := Option.ne_none_iff_exists'.1 symbol
      simp [labels, known]
    have first : form.indexRegister? = (registersOf form.terms)[0]? := by
      rw [MemoryForm.indexRegister?, named]
      have before := arranged.registersOf_eq_of_free single
      cases hasIndex : m.index with
      | none => simp [arranged.scaledRegistersOf_eq_nil hasIndex]
      | some entry =>
        have hasBase : m.base = none := by simpa [hasIndex] using single
        rw [MemoryOperand.registers, hasBase, hasIndex] at before
        have last : (scaledRegistersOf form.terms).getLast? = some entry.1 := by
          simpa [before, hasIndex, eq_comm] using arranged.index
        simp [last, before]
    refine ⟨?_, weight, by rw [named]; rfl⟩
    rw [GoAddress.index?, same, first, arranged.registersOf_eq_of_free single]
  · obtain ⟨same, weight⟩ := general_of_renderPlainAddress usable plain n
    have index : form.indexRegister? = m.index.map Prod.fst := by
      rw [MemoryForm.indexRegister?, labels, symbol, arranged.index]
      rfl
    have noSymbol : a.symbol? = none := by
      simpa [symbol] using (renderedAs_of_renderPlainAddress usable symbol plain).symbol
    exact ⟨index ▸ same, weight, by simp [noSymbol, labels, symbol]⟩

/-- The tokens of a memory operand spell exactly one form, and its rendering has for an index the
register that the form has for one, `rsp` as well as any other.  Whether the address could be written
without an index `rsp` is another matter: it can if the terms count `rsp` once at most, and next to a
symbol not at all. -/
theorem index?_renderMemory {text : String} {m : MemoryOperand} {tables : List DataTable}
    {a : GoAddress} (read : readOperand text = .ok (.memory m))
    (rendered : renderMemory tables m = .ok a) :
    ∃ form : MemoryForm, (∀ other : MemoryForm, other.Spelling (tokens text) ↔ other = form) ∧
      (∀ n, a.index? = some (.general n) ↔ form.indexRegister? = some (.general .qword n)) ∧
      ((∃ b : GoAddress, b.index? ≠ some .stackPointer ∧ ∀ v, b.value v ≡ a.value v [ZMOD 2 ^ 64]) ↔
        termWeight .stackPointer form.terms ≤ if form.labels.isEmpty then 1 else 0) := by
  obtain ⟨form, spelled, denotes⟩ := readTokens_eq_memory read
  refine ⟨form, fun other => ?_, fun n => (general_of_renderMemory denotes rendered n).1, ?_⟩
  · constructor
    · intro spelled'
      exact spelled'.unique spelled
    · rintro rfl
      exact spelled
  · obtain ⟨-, weight, symbol⟩ := general_of_renderMemory denotes rendered ⟨4, by decide⟩
    rw [a.exists_value_modEq_iff, GoRegister.stackPointer, weight, symbol, Register.stackPointer]
    cases form.labels.isEmpty <;> rfl

/-- A scaled register written first leaves `rsp` the place of the base. -/
theorem index?_renderMemory_scaledFirst :
    readOperand "[1*rax + rsp - 8]" =
        .ok (.memory { base := some (.general .qword 4), index := some (.general .qword 0, .one),
                       displacement := -8 }) ∧
      renderMemory [] { base := some (.general .qword 4), index := some (.general .qword 0, .one),
                        displacement := -8 } =
        .ok (.based (-8) (.general 4) (some (.general 0, .one))) ∧
      ∃ form : MemoryForm,
        (∀ other : MemoryForm, other.Spelling (tokens "[1*rax + rsp - 8]") ↔ other = form) ∧
        form.indexRegister? = some (.general .qword 0) ∧
        termWeight .stackPointer form.terms ≤ if form.labels.isEmpty then 1 else 0 := by
  have read : readOperand "[1*rax + rsp - 8]" =
      .ok (.memory { base := some (.general .qword 4), index := some (.general .qword 0, .one),
                     displacement := -8 }) := by
    decide +kernel
  have rendered : renderMemory []
      { base := some (.general .qword 4), index := some (.general .qword 0, .one),
        displacement := -8 } = .ok (.based (-8) (.general 4) (some (.general 0, .one))) := by
    decide +kernel
  have ⟨form, spelled, index, weight⟩ := index?_renderMemory read rendered
  refine ⟨read, rendered, form, spelled, (index 0).1 rfl, weight.1 ⟨_, ?_, fun v => .refl _⟩⟩
  decide

/-- Two operands with an index `rsp`.  The first would stand for the same address with its registers
exchanged, and the second is no address that the processor has. -/
theorem stackPointer_as_index :
    (∃ m, readOperand "qword ptr [rax + rsp]" = .ok (.memory m) ∧
      renderMemory [] m = .ok (.based 0 (.general 0) (some (.stackPointer, .one)))) ∧
    (GoAddress.based 0 (.general 0) (some (.stackPointer, .one))).text = "(AX)(SP*1)" ∧
    (∀ v, (GoAddress.based 0 .stackPointer (some (.general 0, .one))).value v =
      (GoAddress.based 0 (.general 0) (some (.stackPointer, .one))).value v) ∧
    (∃ m, readOperand "qword ptr [2*rsp]" = .ok (.memory m) ∧
      renderMemory [] m = .ok (.indexed 0 .stackPointer .two)) ∧
    (GoAddress.indexed 0 .stackPointer .two).text = "0(SP*2)" ∧
    ¬∃ b : GoAddress, b.index? ≠ some .stackPointer ∧
      ∀ v, b.value v ≡ (GoAddress.indexed 0 .stackPointer .two).value v [ZMOD 2 ^ 64] := by
  refine ⟨?_, by decide +kernel, fun v => ?_, ?_, by decide +kernel, ?_⟩
  · exact ⟨{ size := some .qword, base := some (.general .qword 0),
             index := some (.general .qword 4, .one) }, by decide +kernel, by decide +kernel⟩
  · simp only [GoAddress.value, goIndexValue, Scale.factor]
    ring
  · exact ⟨{ size := some .qword, index := some (.general .qword 4, .two) }, by decide +kernel,
      by decide +kernel⟩
  · rw [GoAddress.exists_value_modEq_iff]
    decide

end AsmTranslit
