import AsmTranslit.Proofs.InstructionLines

/-!
# Prefixes of instructions

The words in front of a mnemonic ask for a prefix or lengthen the encoding.  At most one of them asks, a
`rep` of a return apart, and the instruction's own line has what it asks for.  That goes for instructions
that do nothing as well: Go assembles `NOP` to no bytes, so their prefix is left to what follows.
-/

namespace AsmTranslit

/-- The prefix that a modifying word asks for.  A return needs no `rep`. -/
def askedPrefix? (treatment : Treatment) (word : String) : Option GoPrefix :=
  (GoPrefix.ofIntel? (lowerCase word)).filter fun asked => ¬(asked = .rep ∧ treatment = .ret)

/-- The lines of an instruction whose prefix is known: its own line has this prefix, and a line that is
put in front has none.  The return at the end of a body has no lines. -/
inductive PrefixedLines (isLast : Bool) (treatment : Treatment) (modifier : Option GoPrefix) :
    List GoLine → Prop
  | single {go : String} {operands : List GoOperand} (noRet : treatment ≠ .ret) :
    PrefixedLines isLast treatment modifier [.instruction modifier go operands]
  | lastRet (isRet : treatment = .ret) (last : isLast = true) :
    PrefixedLines isLast treatment modifier []
  | earlyRet (isRet : treatment = .ret) (early : isLast = false) :
    PrefixedLines isLast treatment modifier
      [.instruction none "VZEROUPPER" [], .instruction modifier "RET" []]

variable {treatment : Treatment} {kept modifier : Option GoPrefix} {word mnemonic go : String}
  {words : List String} {hasVector isLast : Bool} {rule : Rule} {operands : List Operand}
  {context : BodyContext} {text : String} {group : List GoLine}

private theorem keepModifier_eq_ok_iff {next : Option GoPrefix} :
    keepModifier treatment kept word = .ok next ↔
      kept.toList ++ (askedPrefix? treatment word).toList = next.toList ∧
        (GoPrefix.ofIntel? (lowerCase word) = none → treatment = .nop) := by
  fun_cases keepModifier treatment kept word with
  | case1 asked known dropped =>
    have asks : askedPrefix? treatment word = none := by simp [askedPrefix?, known, dropped]
    cases kept <;> cases next <;> simp [asks, known]
  | case2 asked known needed free =>
    obtain rfl := Option.isNone_iff_eq_none.1 free
    have asks : askedPrefix? treatment word = some asked := by
      rw [askedPrefix?, known]
      exact Option.filter_some_pos (decide_eq_true needed)
    cases next <;> simp [asks, known]
  | case3 asked known needed taken =>
    obtain ⟨first, rfl⟩ := Option.ne_none_iff_exists'.1 (mt Option.isNone_iff_eq_none.2 taken)
    have asks : askedPrefix? treatment word = some asked := by
      rw [askedPrefix?, known]
      exact Option.filter_some_pos (decide_eq_true needed)
    cases next <;> simp [asks]
  | case4 unknown isNop =>
    have asks : askedPrefix? treatment word = none := by rw [askedPrefix?, unknown, Option.filter_none]
    cases kept <;> cases next <;> simp [asks, ← isNop]
  | case5 unknown noNop => simp [unknown, noNop]

private theorem exists_toList_of_append {α : Type} {xs ys : List α} {a : Option α}
    (h : xs ++ ys = a.toList) : ∃ b : Option α, xs = b.toList := by
  match xs with
  | [] => exact ⟨none, rfl⟩
  | [x] => exact ⟨some x, rfl⟩
  | x :: y :: _ => cases a <;> simp at h

/-- The modifying words of an instruction are accepted if at most one asks for a prefix, which is kept,
and if those that are no prefix in Go belong to an instruction that does nothing. -/
theorem foldlM_keepModifier :
    words.foldlM (keepModifier treatment) kept = .ok modifier ↔
      kept.toList ++ words.filterMap (askedPrefix? treatment) = modifier.toList ∧
        ∀ word ∈ words, GoPrefix.ofIntel? (lowerCase word) = none → treatment = .nop := by
  induction words generalizing kept with
  | nil => cases kept <;> cases modifier <;> simp [pure, Except.pure]
  | cons word words ih =>
    have asked : (word :: words).filterMap (askedPrefix? treatment) =
        (askedPrefix? treatment word).toList ++ words.filterMap (askedPrefix? treatment) := by
      cases asks : askedPrefix? treatment word <;> simp [asks]
    rw [List.foldlM_cons, bind_eq_ok_iff, asked, ← List.append_assoc, List.forall_mem_cons]
    simp only [keepModifier_eq_ok_iff, ih]
    constructor
    · rintro ⟨next, ⟨first, padded⟩, later, others⟩
      exact ⟨first ▸ later, padded, others⟩
    · rintro ⟨all, padded, others⟩
      obtain ⟨next, first⟩ := exists_toList_of_append all
      exact ⟨next, ⟨first, padded⟩, first ▸ all, others⟩

private theorem ofIntel?_of_isPadding (padding : isPadding word) : GoPrefix.ofIntel? word = none := by
  have all : ∀ padding ∈ ["data16", "data32", "cs", "ds", "addr32"],
      GoPrefix.ofIntel? padding = none := by
    decide
  exact all word (List.contains_iff_mem.1 padding)

/-- Whether a spelling can be that of Go's instruction which does nothing.  What starts with neither case
of `n` is not `NOP` in upper case. -/
def Spelling.mayBeNop (mnemonic : String) : Spelling → Bool
  | same => firstByte mnemonic = some 110 || firstByte mnemonic = some 78
  | fixed go => go = "NOP"
  | widths long quad => long = "NOP" || quad = "NOP"
  | _ => false

private theorem mayBeNop_of_mem_entries : ∀ entry ∈ Catalog.entries,
    (entry.2.treatment = .nop → entry.2.spelling = .fixed "NOP") ∧
      (entry.2.treatment ≠ .nop → entry.2.spelling.mayBeNop entry.1 = false) := by
  decide +kernel

private theorem eq_of_toUpper {c : Char} (h : c.toUpper = 'N') : c = 'n' ∨ c = 'N' := by
  by_cases lower : 'a'.val ≤ c.val ∧ c.val ≤ 'z'.val
  · have letters : ∀ n < 123, 97 ≤ n → (Char.ofNat n).toUpper = 'N' → Char.ofNat n = 'n' := by
      decide +kernel
    have first : 97 ≤ c.toNat := UInt32.le_iff_toNat_le.1 lower.1
    have last : c.toNat ≤ 122 := UInt32.le_iff_toNat_le.1 lower.2
    have known := letters c.toNat (by omega) first
    rw [Char.ofNat_toNat] at known
    exact .inl (known h)
  · rw [Char.toUpper.eq_def, dif_neg lower] at h
    exact .inr h

private theorem firstByte_of_upperCase (h : upperCase mnemonic = "NOP") :
    firstByte mnemonic = some 110 ∨ firstByte mnemonic = some 78 := by
  have letters : mnemonic.toList.map Char.toUpper = ['N', 'O', 'P'] := by
    rw [upperCase, ← String.toList_inj, String.toList_ofList] at h
    exact h
  obtain ⟨c, cs, split, first, -⟩ := List.map_eq_cons_iff.1 letters
  have whole : mnemonic = String.singleton c ++ String.ofList cs := by
    rw [← String.toList_inj, split]
    simp
  rcases eq_of_toUpper first with rfl | rfl
  · exact .inl (whole ▸ firstByte_append rfl)
  · exact .inr (whole ▸ firstByte_append rfl)

theorem append_ne_nop {start rest : String} {byte : UInt8} (starts : firstByte start = some byte)
    (other : byte ≠ 78) : start ++ rest ≠ "NOP" := by
  intro same
  have first : firstByte (start ++ rest) = some byte := firstByte_append starts
  rw [same] at first
  exact other (Option.some.inj first).symm

private theorem goMnemonic_ne_nop {spelling : Spelling} (noNop : spelling.mayBeNop mnemonic = false)
    (spelled : spelling.goMnemonic mnemonic operands = .ok go) : go ≠ "NOP" := by
  cases spelling with
  | same =>
    obtain rfl := Except.ok.inj spelled
    intro isNop
    rcases firstByte_of_upperCase isNop with starts | starts <;>
      simp [Spelling.mayBeNop, starts] at noNop
  | fixed text =>
    obtain rfl := Except.ok.inj spelled
    exact of_decide_eq_false noNop
  | suffixed stem default =>
    obtain ⟨letter, known, last⟩ := bind_eq_ok_iff.1 spelled
    obtain rfl := Except.ok.inj last
    obtain ⟨size, c, -, suffix, rfl⟩ := knownSizeLetter_eq_ok_iff.1 known
    intro isNop
    have lastLetter : some c = some 'P' := by
      simpa using congrArg (fun name => name.toList.getLast?) isNop
    rw [Option.some.inj lastLetter] at suffix
    cases size <;> cases suffix
  | widths long quad =>
    obtain ⟨noLong, noQuad⟩ : long ≠ "NOP" ∧ quad ≠ "NOP" := by
      simpa [Spelling.mayBeNop] using noNop
    simp only [Spelling.goMnemonic] at spelled
    split at spelled
    case h_1 => exact Except.ok.inj spelled ▸ noLong
    case h_2 => exact Except.ok.inj spelled ▸ noQuad
    all_goals cases spelled
  | extend signed =>
    simp only [Spelling.goMnemonic] at spelled
    split at spelled
    case h_1 =>
      obtain ⟨fromLetter, -, spelled⟩ := bind_eq_ok_iff.1 spelled
      obtain ⟨toLetter, -, last⟩ := bind_eq_ok_iff.1 spelled
      obtain rfl := Except.ok.inj last
      exact append_ne_nop (firstByte_append (firstByte_append rfl)) (by decide)
    case h_2 => cases spelled
  | multiply =>
    obtain ⟨letter, -, last⟩ := bind_eq_ok_iff.1 spelled
    obtain rfl := Except.ok.inj last
    split <;> exact append_ne_nop rfl (by decide)
  | jump condition =>
    obtain rfl := Except.ok.inj spelled
    exact append_ne_nop rfl (by decide)
  | set condition =>
    obtain rfl := Except.ok.inj spelled
    exact append_ne_nop rfl (by decide)
  | move condition =>
    obtain ⟨letter, -, last⟩ := bind_eq_ok_iff.1 spelled
    obtain rfl := Except.ok.inj last
    exact append_ne_nop (firstByte_append rfl) (by decide)

private theorem mayBeNop_of_find? (found : Rule.find? mnemonic hasVector = some rule) :
    (rule.treatment = .nop → rule.spelling = .fixed "NOP") ∧
      (rule.treatment ≠ .nop → rule.spelling.mayBeNop mnemonic = false) := by
  revert found
  fun_cases Rule.find? mnemonic hasVector with
  | case4 =>
    intro found
    obtain listed | ⟨-, conditional⟩ := Option.or_eq_some_iff.1 found
    · exact mayBeNop_of_mem_entries _ (mem_entries_of_lookup listed)
    · revert conditional
      fun_cases conditionalRule? mnemonic with
      | case4 =>
        intro none
        cases none
      | _ =>
        intro conditional
        obtain ⟨c, -, rfl⟩ := Option.map_eq_some_iff.1 conditional
        exact ⟨by simp, fun _ => rfl⟩
  | _ =>
    intro found
    obtain rfl := Option.some.inj found
    exact ⟨by decide, fun _ => by decide⟩

theorem Assembled.eq_nop_iff {selection : Selection} {statement : Statement}
    (parts : Assembled context isLast statement group selection modifier operands go) :
    go = "NOP" ↔ selection.rule.treatment = .nop := by
  obtain ⟨named, others⟩ := mayBeNop_of_find? (find?_of_selection parts.found)
  have spelled := parts.spelled
  constructor
  · intro isNop
    by_contra noNop
    exact goMnemonic_ne_nop (others noNop) spelled isNop
  · intro isNop
    rw [named isNop] at spelled
    exact (Except.ok.inj spelled).symm

private theorem Assembled.prefixedLines {selection : Selection} {statement : Statement}
    (parts : Assembled context isLast statement group selection modifier operands go) :
    PrefixedLines isLast selection.rule.treatment modifier group := by
  by_cases isRet : selection.rule.treatment = .ret
  · have spelled := parts.spelled
    rw [(controlOf_selection parts.found).spelling isRet] at spelled
    obtain rfl := Except.ok.inj spelled
    rw [arrangeInstruction_ret parts.arranged isRet]
    cases isLast with
    | false => exact .earlyRet isRet rfl
    | true => exact .lastRet isRet rfl
  · obtain ⟨rendered, rfl⟩ := arrangeInstruction_of_ne_ret parts.arranged isRet
    exact .single isRet

private theorem Assembled.mem_nop_iff {selection : Selection} {statement : Statement} {kept : GoPrefix}
    {rendered : List GoOperand}
    (parts : Assembled context isLast statement group selection modifier operands go) :
    .instruction (some kept) "NOP" rendered ∈ group ↔
      selection.rule.treatment = .nop ∧ modifier = some kept ∧ rendered = [] := by
  by_cases isNop : selection.rule.treatment = .nop
  · have arranged := parts.arranged
    simp only [arrangeInstruction, isNop] at arranged
    obtain rfl := Except.ok.inj arranged
    simp [parts.eq_nop_iff.2 isNop, isNop, eq_comm]
  · have named : go ≠ "NOP" := mt parts.eq_nop_iff.1 isNop
    simp only [isNop, false_and, iff_false]
    by_cases isRet : selection.rule.treatment = .ret
    · rw [arrangeInstruction_ret parts.arranged isRet]
      cases isLast <;> simp [named.symm]
    · obtain ⟨others, rfl⟩ := arrangeInstruction_of_ne_ret parts.arranged isRet
      simp [named.symm]

/-- Among the modifying words of an instruction that is translated, at most one asks for a prefix, and
the instruction's own line has that prefix.  Words that only lengthen the encoding stand in front of
instructions that do nothing, and these, too, have the prefix that is asked for: in front of Go's `NOP`
there is one wherever such an instruction has one, and nowhere else. -/
theorem instructionLines_prefixes (translated : instructionLines context isLast text = .ok group) :
    ∃ selection kept,
      Selection.find? (Statement.ofText text).mnemonic
        ((readableOperands (Statement.ofText text).operands).any Operand.isVector) = some selection ∧
      (Statement.ofText text).modifiers.filterMap (askedPrefix? selection.rule.treatment) =
        kept.toList ∧
      (∀ word ∈ (Statement.ofText text).modifiers, isPadding (lowerCase word) →
        selection.rule.treatment = .nop) ∧
      PrefixedLines isLast selection.rule.treatment kept group ∧
      ∀ modifier rendered, .instruction (some modifier) "NOP" rendered ∈ group ↔
        selection.rule.treatment = .nop ∧ kept = some modifier ∧ rendered = [] := by
  obtain ⟨selection, kept, operands, go, parts⟩ := exists_assembled translated
  obtain ⟨asked, others⟩ := foldlM_keepModifier.1 parts.kept
  refine ⟨selection, kept, parts.found, asked, ?_, parts.prefixedLines, fun _ _ => parts.mem_nop_iff⟩
  intro word member padding
  exact others word member (ofIntel?_of_isPadding padding)

/-- A return in the middle of a body, with a prefix that it does not need and one that it keeps. -/
theorem instructionLines_prefixes_return :
    instructionLines ⟨"f", [], []⟩ false "rep repne ret" =
      .ok [.instruction none "VZEROUPPER" [], .instruction (some .repn) "RET" []] ∧
    (Statement.ofText "rep repne ret").modifiers = ["rep", "repne"] ∧
    (Statement.ofText "rep repne ret").modifiers.filterMap (askedPrefix? .ret) = [.repn] := by
  have translated : instructionLines ⟨"f", [], []⟩ false "rep repne ret" =
      .ok [.instruction none "VZEROUPPER" [], .instruction (some .repn) "RET" []] := by
    decide +kernel
  have words : (Statement.ofText "rep repne ret").modifiers = ["rep", "repne"] := by
    decide +kernel
  obtain ⟨selection, kept, found, asked, -, lines, -⟩ := instructionLines_prefixes translated
  cases lines with
  | earlyRet isRet _ => exact ⟨translated, words, isRet ▸ asked⟩

/-- A pause is written as a repeated instruction that does nothing. -/
theorem prefix_left_to_nop :
    instructionLines ⟨"f", [], []⟩ false "rep nop" = .ok [.instruction (some .rep) "NOP" []] ∧
    instructionLines ⟨"f", [], []⟩ false "pause" = .ok [.instruction none "PAUSE" []] := by
  decide +kernel

end AsmTranslit
