import AsmTranslit.Proofs.InstructionPrefixes

/-!
# String instructions

String instructions work on fixed registers and on memory that these point to.  A listing may write the
implied operands out, and Go has no place for them.  They are dropped, and so are texts that cannot be
read as operands: they are taken for implied ones in another notation.  What is left is the prefix and
the name, which may need the size of an operand.
-/

namespace AsmTranslit

def Register.isQuad (number : Nat) : Register → Bool
  | general .qword own => own.val == number
  | _ => false

/-- An operand that string instructions imply: the accumulator, or memory that `rdi` or `rsi` points to
in the segment that each has by itself, which is `es` or `ds`. -/
def Operand.isImplied : Operand → Bool
  | register (.general _ number) => number.val == 0
  | memory m =>
    m.index.isNone && m.displacement == 0 && m.symbol.isNone &&
      ((m.base.any (Register.isQuad 7) && m.segment.all fun own => own.val == 0) ||
        (m.base.any (Register.isQuad 6) && m.segment.all fun own => own.val == 3))
  | _ => false

example : (readOperand "byte ptr es:[rdi]").toOption.any Operand.isImplied ∧
    (readOperand "dword ptr [rsi]").toOption.any Operand.isImplied ∧
    (readOperand "eax").toOption.any Operand.isImplied ∧
    !(readOperand "byte ptr fs:[rsi]").toOption.any Operand.isImplied ∧
    !(readOperand "byte ptr [edi]").toOption.any Operand.isImplied := by
  decide +kernel

/-- The name of a string instruction with its operands.  Either it tells the size, or it ends in the
letter for the size of the first operand that has one. -/
inductive StringName : Spelling → List Operand → String → Prop
  | whole {operands : List Operand} (go : String) : StringName (.fixed go) operands go
  | sized {operands : List Operand} {size : Size} {letter : Char} (stem : String)
      (known : integerSize? operands = some size) (suffix : size.goSuffix? = some letter) :
      StringName (.suffixed stem none) operands (stem ++ String.singleton letter)

def Spelling.isOfString : Spelling → Bool
  | fixed _ => true
  | suffixed _ none => true
  | _ => false

variable {mnemonic word : String} {hasVector : Bool} {rule : Rule} {operands : List Operand}
  {go : String}

private theorem goMnemonic_eq_ok_iff {spelling : Spelling} (ofString : spelling.isOfString) :
    spelling.goMnemonic mnemonic operands = .ok go ↔ StringName spelling operands go := by
  revert ofString
  fun_cases Spelling.isOfString spelling with
  | case1 name =>
    intro _
    constructor
    · intro h
      obtain rfl := Except.ok.inj h
      exact .whole _
    · rintro ⟨⟩
      rfl
  | case2 stem =>
    intro _
    rw [Spelling.goMnemonic, bind_eq_ok_iff, Option.or_none]
    constructor
    · rintro ⟨letter, known, last⟩
      obtain rfl := Except.ok.inj last
      obtain ⟨size, c, hasSize, suffix, rfl⟩ := knownSizeLetter_eq_ok_iff.1 known
      exact .sized stem hasSize suffix
    · intro h
      cases h with
      | sized _ known suffix =>
        exact ⟨_, knownSizeLetter_eq_ok_iff.2 ⟨_, _, known, suffix, rfl⟩, rfl⟩
  | case3 => simp

private theorem spelling_of_mem_entries : ∀ entry ∈ Catalog.entries, entry.2.treatment = .stringOp →
    entry.2.spelling.isOfString := by
  decide +kernel

private theorem conditionalRule?_ne_stringOp (h : conditionalRule? mnemonic = some rule) :
    rule.treatment ≠ .stringOp := by
  revert h
  fun_cases conditionalRule? mnemonic with
  | case4 => simp
  | _ =>
    intro h
    obtain ⟨c, -, rfl⟩ := Option.map_eq_some_iff.1 h
    simp

private theorem isOfString_find? (found : Rule.find? mnemonic hasVector = some rule)
    (isString : rule.treatment = .stringOp) : rule.spelling.isOfString := by
  revert found
  fun_cases Rule.find? mnemonic hasVector with
  | case1 =>
    intro found
    obtain rfl := Option.some.inj found
    rfl
  | case2 =>
    intro found
    obtain rfl := Option.some.inj found
    rfl
  | case3 =>
    intro found
    obtain rfl := Option.some.inj found
    cases isString
  | case4 =>
    intro found
    obtain listed | ⟨-, conditional⟩ := Option.or_eq_some_iff.1 found
    · exact spelling_of_mem_entries _ (mem_entries_of_lookup listed) isString
    · exact absurd isString (conditionalRule?_ne_stringOp conditional)

private theorem map_eq_map_some_iff {α β : Type} {f : α → Option β} {xs : List α} {ys : List β} :
    xs.map f = ys.map some ↔ xs.filterMap f = ys ∧ ∀ x ∈ xs, f x ≠ none := by
  constructor
  · intro h
    constructor
    · calc xs.filterMap f
          = (xs.map f).filterMap id := by rw [List.filterMap_map]; rfl
        _ = ys := by rw [h, List.filterMap_map]; exact List.filterMap_some
    · intro x member unknown
      have inImage : none ∈ ys.map some := h ▸ unknown ▸ List.mem_map_of_mem member
      simp at inImage
  · rintro ⟨rfl, known⟩
    induction xs with
    | nil => rfl
    | cons x xs ih =>
      obtain ⟨first, others⟩ := List.forall_mem_cons.1 known
      obtain ⟨y, read⟩ := Option.ne_none_iff_exists'.1 first
      rw [List.filterMap_cons_some read, List.map_cons, List.map_cons, read, ih others]

private theorem foldlM_keepModifier_stringOp {words : List String} {modifier : Option GoPrefix} :
    words.foldlM (keepModifier .stringOp) none = .ok modifier ↔
      words.map (fun word => GoPrefix.ofIntel? (lowerCase word)) = modifier.toList.map some := by
  have asks (word : String) : askedPrefix? .stringOp word = GoPrefix.ofIntel? (lowerCase word) := by
    cases known : GoPrefix.ofIntel? (lowerCase word) <;> simp [askedPrefix?, known]
  rw [foldlM_keepModifier, map_eq_map_some_iff]
  simp [asks]

variable {context : BodyContext} {isLast : Bool} {text : String} {group : List GoLine}

private theorem instructionLines_of_stringOp {selection : Selection}
    (found : Selection.find? (Statement.ofText text).mnemonic
      ((readableOperands (Statement.ofText text).operands).any Operand.isVector) = some selection)
    (isString : selection.rule.treatment = .stringOp) :
    instructionLines context isLast text = .ok group ↔
      ∃ modifier go,
        (Statement.ofText text).modifiers.foldlM (keepModifier .stringOp) none = .ok modifier ∧
        selection.rule.spelling.goMnemonic selection.mnemonic
          (readableOperands (Statement.ofText text).operands) = .ok go ∧
        group = [.instruction modifier go []] := by
  have dropped (texts : List String) : selection.operands texts = .ok (readableOperands texts) := by
    rw [Selection.operands, isString]
  have single (modifier : Option GoPrefix) (go : String) (operands : List Operand) :
      arrangeInstruction context isLast (Statement.ofText text).mnemonic selection.rule modifier go
        operands = .ok [.instruction modifier go []] := by
    simp only [arrangeInstruction, isString]
  constructor
  · intro h
    obtain ⟨other, modifier, operands, go, parts⟩ := exists_assembled h
    obtain rfl := Option.some.inj (found.symm.trans parts.found)
    obtain rfl := Except.ok.inj ((dropped _).symm.trans parts.read)
    have kept := parts.kept
    rw [isString] at kept
    exact ⟨modifier, go, kept, parts.spelled,
      Except.ok.inj (parts.arranged.symm.trans (single modifier go _))⟩
  · rintro ⟨modifier, go, kept, spelled, rfl⟩
    rw [← isString] at kept
    exact Assembled.instructionLines_eq ⟨found, kept, dropped _, spelled, single modifier go _⟩

/-- String instructions drop the operands that they imply, and with these the texts that cannot be read
as operands.  If all that can be read are implied, the instruction is translated whenever it has no
modifying word or one that is a prefix in Go, and a name; its line is these two alone. -/
theorem instructionLines_stringOp_iff {selection : Selection}
    (found : Selection.find? (Statement.ofText text).mnemonic false = some selection)
    (isString : selection.rule.treatment = .stringOp)
    (implied : ∀ operand ∈ readableOperands (Statement.ofText text).operands, operand.isImplied) :
    instructionLines context isLast text = .ok group ↔
      ∃ modifier go,
        (Statement.ofText text).modifiers.map (fun word => GoPrefix.ofIntel? (lowerCase word)) =
          modifier.toList.map some ∧
        StringName selection.rule.spelling (readableOperands (Statement.ofText text).operands) go ∧
        group = [.instruction modifier go []] := by
  have noVector : (readableOperands (Statement.ofText text).operands).any Operand.isVector = false := by
    rw [List.any_eq_false]
    intro operand member
    have isImplied := implied operand member
    cases operand with
    | register r => cases r <;> simp_all [Operand.isImplied, Operand.isVector]
    | _ => simp [Operand.isVector]
  have ofString := isOfString_find? (find?_of_selection found) isString
  rw [← noVector] at found
  rw [instructionLines_of_stringOp found isString]
  simp only [foldlM_keepModifier_stringOp, goMnemonic_eq_ok_iff ofString]

/-- A repeated move, one of whose implied operands is in a notation that cannot be read. -/
theorem instructionLines_stringOp_move :
    Selection.find? (Statement.ofText "rep movsd dword ptr es:[rdi], dword ptr ds:(rsi)").mnemonic
      false = some ⟨"movsd", none, ⟨.fixed "MOVSL", .reverse, .stringOp⟩⟩ ∧
    readableOperands (Statement.ofText "rep movsd dword ptr es:[rdi], dword ptr ds:(rsi)").operands =
      [.memory { size := some .dword, segment := some 0, base := some (.general .qword 7) }] ∧
    instructionLines ⟨"f", [], []⟩ true "rep movsd dword ptr es:[rdi], dword ptr ds:(rsi)" =
      .ok [.instruction (some .rep) "MOVSL" []] := by
  have found : Selection.find?
      (Statement.ofText "rep movsd dword ptr es:[rdi], dword ptr ds:(rsi)").mnemonic false =
        some ⟨"movsd", none, ⟨.fixed "MOVSL", .reverse, .stringOp⟩⟩ := by
    decide +kernel
  have readable : readableOperands
      (Statement.ofText "rep movsd dword ptr es:[rdi], dword ptr ds:(rsi)").operands =
        [.memory { size := some .dword, segment := some 0, base := some (.general .qword 7) }] := by
    decide +kernel
  have implied : ∀ operand ∈ readableOperands
      (Statement.ofText "rep movsd dword ptr es:[rdi], dword ptr ds:(rsi)").operands,
        operand.isImplied := by
    rw [readable]
    decide
  have words : (Statement.ofText "rep movsd dword ptr es:[rdi], dword ptr ds:(rsi)").modifiers =
      ["rep"] := by
    decide +kernel
  have kept : (Statement.ofText "rep movsd dword ptr es:[rdi], dword ptr ds:(rsi)").modifiers.map
      (fun word => GoPrefix.ofIntel? (lowerCase word)) = (some GoPrefix.rep).toList.map some := by
    rw [words]
    decide
  exact ⟨found, readable, (instructionLines_stringOp_iff found rfl implied).2
    ⟨some .rep, "MOVSL", kept, .whole "MOVSL", rfl⟩⟩

/-- A text that cannot be read as an operand is dropped, where a move fails for it. -/
theorem unreadable_operand_dropped :
    (Statement.ofText "lodsb al, byte ptr ds:(rsi)").operands = ["al", "byte ptr ds:(rsi)"] ∧
    (readOperand "byte ptr ds:(rsi)").toOption = none ∧
    Selection.find? (Statement.ofText "lodsb al, byte ptr ds:(rsi)").mnemonic false =
      some ⟨"lodsb", none, ⟨.fixed "LODSB", .reverse, .stringOp⟩⟩ ∧
    instructionLines ⟨"f", [], []⟩ true "lodsb al, byte ptr ds:(rsi)" =
      .ok [.instruction none "LODSB" []] ∧
    (instructionLines ⟨"f", [], []⟩ true "mov al, byte ptr ds:(rsi)").toOption = none := by
  decide +kernel

end AsmTranslit
