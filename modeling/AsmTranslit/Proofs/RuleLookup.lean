import AsmTranslit.RoutineBody
import Mathlib.Data.List.Basic

/-!
# Rules of mnemonics

Where the rule of a mnemonic comes from, and what that says about control flow: branches are the three
jumps without a condition on flags and the jumps named after one, and the only return is `ret`.  A
comparison written with its predicate is neither.
-/

namespace AsmTranslit

def IsBranch (mnemonic : String) : Prop :=
  mnemonic ∈ ["jmp", "jrcxz", "jecxz"] ∨
    ∃ name, (Condition.ofIntel? name).isSome ∧ mnemonic = "j" ++ name

variable {mnemonic : String} {hasVector : Bool} {rule : Rule}

/-- The control flow of a rule agrees with that of its mnemonic. -/
structure Rule.ControlOf (rule : Rule) (mnemonic : String) : Prop where
  branch : rule.treatment = .branch ↔ IsBranch mnemonic
  ret : rule.treatment = .ret ↔ mnemonic = "ret"
  spelling : rule.treatment = .ret → rule.spelling = .fixed "RET"

/-- The first byte of a text.  Where a catalog of texts is gone through, it is found faster than the
first character. -/
def firstByte (text : String) : Option UInt8 :=
  text.toByteArray.data.toList.head?

theorem firstByte_append {start rest : String} {byte : UInt8} (h : firstByte start = some byte) :
    firstByte (start ++ rest) = some byte := by
  rw [firstByte] at h
  rw [firstByte, String.toByteArray_append, ByteArray.data_append, Array.toList_append,
    List.head?_append, h, Option.some_or]

theorem IsBranch.firstByte_eq (h : IsBranch mnemonic) : firstByte mnemonic = some 106 := by
  obtain listed | ⟨name, -, rfl⟩ := h
  · revert listed mnemonic
    decide
  · exact firstByte_append rfl

/-- The control flow of the catalog: what starts with a `j` is a branch, and no other instruction is,
and the only return is `ret`. -/
theorem treatment_of_mem_entries : ∀ entry ∈ Catalog.entries,
    (firstByte entry.1 = some 106 →
      entry.2.treatment = .branch ∧ entry.1 ∈ ["jmp", "jrcxz", "jecxz"]) ∧
    (entry.2.treatment = .branch → firstByte entry.1 = some 106) ∧
    (entry.2.treatment = .ret → entry.1 = "ret" ∧ entry.2.spelling = .fixed "RET") ∧
    (firstByte entry.1 = some 114 → entry.1 = "ret" → entry.2.treatment = .ret) := by
  decide +kernel

theorem mem_entries_of_lookup (h : Catalog.entries.lookup mnemonic = some rule) :
    (mnemonic, rule) ∈ Catalog.entries := by
  obtain ⟨before, after, split, -⟩ := List.lookup_eq_some_iff.1 h
  rw [split]
  simp

private theorem controlOf_of_lookup (h : Catalog.entries.lookup mnemonic = some rule) :
    rule.ControlOf mnemonic := by
  obtain ⟨jump, branch, ret, isRet⟩ := treatment_of_mem_entries _ (mem_entries_of_lookup h)
  refine ⟨⟨?_, ?_⟩, ⟨?_, ?_⟩, ?_⟩
  · exact fun h => .inl (jump (branch h)).2
  · exact fun h => (jump h.firstByte_eq).1
  · exact fun h => (ret h).1
  · rintro rfl
    exact isRet rfl rfl
  · exact fun h => (ret h).2

theorem eq_append_of_isPrefixOf? {start text : String} {rest : List Char}
    (h : start.toList.isPrefixOf? text.toList = some rest) : text = start ++ String.ofList rest := by
  rw [List.isPrefixOf?_eq_some_iff_append_eq] at h
  rw [← String.toList_inj, String.toList_append, String.toList_ofList, h]

theorem conditionAfter?_eq_some_iff {start : String} {condition : Option Condition} :
    conditionAfter? start mnemonic = some condition ↔
      ∃ rest, mnemonic = start ++ rest ∧ Condition.ofIntel? rest = condition := by
  rw [conditionAfter?, Option.map_eq_some_iff]
  constructor
  · rintro ⟨rest, h, same⟩
    exact ⟨_, eq_append_of_isPrefixOf? h, same⟩
  · rintro ⟨rest, rfl, same⟩
    refine ⟨rest.toList, ?_, by simpa using same⟩
    rw [List.isPrefixOf?_eq_some_iff_append_eq, String.toList_append]

theorem controlOf_of_firstByte {byte : UInt8} (noBranch : rule.treatment ≠ .branch)
    (noRet : rule.treatment ≠ .ret) (start : firstByte mnemonic = some byte)
    (noJump : byte ≠ 106) (noReturn : byte ≠ 114) : rule.ControlOf mnemonic := by
  have jumps : ¬ IsBranch mnemonic := fun h =>
    noJump (Option.some.inj (start.symm.trans h.firstByte_eq))
  have returns : mnemonic ≠ "ret" := by
    rintro rfl
    exact noReturn (Option.some.inj start).symm
  exact ⟨⟨fun h => absurd h noBranch, fun h => absurd h jumps⟩,
    ⟨fun h => absurd h noRet, fun h => absurd h returns⟩, fun h => absurd h noRet⟩

private theorem controlOf_conditionalRule? (h : conditionalRule? mnemonic = some rule) :
    rule.ControlOf mnemonic := by
  revert h
  fun_cases conditionalRule? mnemonic with
  | case1 condition read =>
    intro h
    obtain ⟨c, -, rfl⟩ := Option.map_eq_some_iff.1 h
    obtain ⟨rest, rfl, -⟩ := conditionAfter?_eq_some_iff.1 read
    exact controlOf_of_firstByte nofun nofun (firstByte_append rfl) (by decide) (by decide)
  | case2 _ condition read =>
    intro h
    obtain ⟨c, -, rfl⟩ := Option.map_eq_some_iff.1 h
    obtain ⟨rest, rfl, -⟩ := conditionAfter?_eq_some_iff.1 read
    exact controlOf_of_firstByte nofun nofun (firstByte_append rfl) (by decide) (by decide)
  | case3 _ _ condition read =>
    intro h
    obtain ⟨c, known, rfl⟩ := Option.map_eq_some_iff.1 h
    obtain ⟨rest, rfl, same⟩ := conditionAfter?_eq_some_iff.1 read
    have differs : "j" ++ rest ≠ "ret" := fun same => by simpa using congrArg String.toList same
    exact ⟨⟨fun _ => .inr ⟨rest, by simp [same, known], rfl⟩, fun _ => rfl⟩,
      ⟨nofun, fun h => absurd h differs⟩, nofun⟩
  | case4 => simp

theorem controlOf_find? (h : Rule.find? mnemonic hasVector = some rule) :
    rule.ControlOf mnemonic := by
  revert h
  fun_cases Rule.find? mnemonic hasVector with
  | case1 =>
    intro h
    obtain rfl := Option.some.inj h
    exact controlOf_of_firstByte nofun nofun rfl (by decide) (by decide)
  | case2 =>
    intro h
    obtain rfl := Option.some.inj h
    exact controlOf_of_firstByte nofun nofun rfl (by decide) (by decide)
  | case3 =>
    intro h
    obtain rfl := Option.some.inj h
    exact controlOf_of_firstByte nofun nofun rfl (by decide) (by decide)
  | case4 =>
    intro h
    obtain listed | ⟨-, conditional⟩ := Option.or_eq_some_iff.1 h
    · exact controlOf_of_lookup listed
    · exact controlOf_conditionalRule? conditional

/-- Every branch has a rule, whatever the operands are. -/
theorem IsBranch.isSome_find? (h : IsBranch mnemonic) :
    (Rule.find? mnemonic hasVector).isSome := by
  fun_cases Rule.find? mnemonic hasVector with
  | case1 => rfl
  | case2 => rfl
  | case3 => rfl
  | case4 =>
    rw [Option.isSome_or, Bool.or_eq_true]
    obtain listed | ⟨name, known, rfl⟩ := h
    · have inCatalog : ∀ jump ∈ ["jmp", "jrcxz", "jecxz"],
          (Catalog.entries.lookup jump).isSome := by
        decide +kernel
      exact .inl (inCatalog mnemonic listed)
    · have noMove : conditionAfter? "cmov" ("j" ++ name) = none := by
        simp [conditionAfter?, List.isPrefixOf?]
      have noSet : conditionAfter? "set" ("j" ++ name) = none := by
        simp [conditionAfter?, List.isPrefixOf?]
      have jump : conditionAfter? "j" ("j" ++ name) = some (Condition.ofIntel? name) :=
        conditionAfter?_eq_some_iff.2 ⟨name, rfl, rfl⟩
      rw [conditionalRule?, noMove, noSet, jump]
      simpa using .inr known

/-- A comparison with its predicate and the one it stands for start alike.  The latter ends in a data
type, and the predicate has a number below that of the names. -/
theorem eq_append_of_comparison? {comparison : String} {predicate : Nat}
    (h : comparison? mnemonic = some (comparison, predicate)) :
    ∃ family ∈ ["vcmp", "cmp"], ∃ rest, ∃ type ∈ ["ps", "pd", "ss", "sd"],
      mnemonic = family ++ rest ∧ comparison = family ++ type ∧
        predicate < comparePredicates.length := by
  have named {family : String} {limit : Nat} {rest : List Char}
      (known : comparisonOf? family limit rest = some (comparison, predicate)) :
      ∃ type ∈ ["ps", "pd", "ss", "sd"], comparison = family ++ type ∧
        predicate < comparePredicates.length := by
    obtain ⟨type, isType, found⟩ := List.exists_of_findSome?_eq_some known
    simp only [Option.bind_eq_bind, Option.bind_eq_some_iff, Option.pure_def, Option.some.injEq,
      Prod.mk.injEq] at found
    obtain ⟨_, -, number, numbered, rfl, rfl⟩ := found
    obtain ⟨inTaken, -⟩ := List.idxOf?_eq_some_iff.1 numbered
    refine ⟨type, isType, rfl, ?_⟩
    rw [List.length_take] at inTaken
    omega
  revert h
  fun_cases comparison? mnemonic with
  | case1 rest start =>
    intro h
    obtain ⟨type, isType, same, bound⟩ := named h
    exact ⟨"vcmp", by simp, _, type, isType, eq_append_of_isPrefixOf? start, same, bound⟩
  | case2 _ rest start =>
    intro h
    obtain ⟨type, isType, same, bound⟩ := named h
    exact ⟨"cmp", by simp, _, type, isType, eq_append_of_isPrefixOf? start, same, bound⟩
  | case3 => simp

theorem find?_of_selection {selection : Selection}
    (h : Selection.find? mnemonic hasVector = some selection) :
    Rule.find? selection.mnemonic hasVector = some selection.rule := by
  revert h
  fun_cases Selection.find? mnemonic hasVector with
  | case1 rule found =>
    intro h
    obtain rfl := Option.some.inj h
    exact found
  | case2 _ comparison predicate _ =>
    intro h
    obtain ⟨rule, found, rfl⟩ := Option.map_eq_some_iff.1 h
    exact found
  | case3 => simp

theorem controlOf_selection {selection : Selection}
    (h : Selection.find? mnemonic hasVector = some selection) :
    selection.rule.ControlOf mnemonic := by
  revert h
  fun_cases Selection.find? mnemonic hasVector with
  | case1 rule found =>
    intro h
    obtain rfl := Option.some.inj h
    exact controlOf_find? found
  | case2 _ comparison predicate stands =>
    intro h
    obtain ⟨rule, found, rfl⟩ := Option.map_eq_some_iff.1 h
    obtain ⟨family, member, rest, type, -, rfl, rfl, -⟩ := eq_append_of_comparison? stands
    have control := controlOf_find? found
    obtain ⟨byte, start, noJump, noReturn⟩ :
        ∃ byte, firstByte family = some byte ∧ byte ≠ 106 ∧ byte ≠ 114 := by
      simp only [List.mem_cons, List.not_mem_nil, or_false] at member
      obtain rfl | rfl := member
      · exact ⟨118, rfl, by decide, by decide⟩
      · exact ⟨99, rfl, by decide, by decide⟩
    have known : firstByte (family ++ type) = some byte := firstByte_append start
    apply controlOf_of_firstByte _ _ (firstByte_append start) noJump noReturn
    · intro isBranch
      have jump := (control.branch.1 isBranch).firstByte_eq
      exact noJump (Option.some.inj (known.symm.trans jump))
    · intro isRet
      rw [control.ret.1 isRet] at known
      exact noReturn (Option.some.inj known).symm
  | case3 => simp

end AsmTranslit
