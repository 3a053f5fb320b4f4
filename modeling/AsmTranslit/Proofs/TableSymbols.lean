import AsmTranslit.Proofs.MentionedSymbols
import AsmTranslit.Proofs.TableContents
import Mathlib.Data.List.Nodup

/-!
# Symbols of tables

Which labels become identifiers.  A label loses its leading dots, and characters that Go symbols do
not accept become underscores, so nothing but letters, digits and underscores is left.  What is left is
an identifier exactly if there is something and it does not start with a digit; a label of dots alone
leaves nothing, and one of dots in front of a digit starts with it.  No two tables of a listing have
the same symbol.
-/

namespace AsmTranslit

/-- An identifier: letters, digits and underscores, of which the first is no digit. -/
def isGoIdentifier (name : String) : Bool :=
  name.toList.head?.any (!·.isDigit) && name.toList.all isGoSymbolChar

def goSymbolName (label : String) : String :=
  String.ofList ((label.toList.dropWhile (· == '.')).map goSymbolChar)

/-- The first character of a label that is no dot. -/
def firstUndotted? (label : String) : Option Char :=
  (label.toList.dropWhile (· == '.')).head?

example : goSymbol "..l_.str$1" = goSymbolName "..l_.str$1" ++ "<>" ∧
    isGoIdentifier (goSymbolName "..l_.str$1") := by
  decide +kernel

private theorem isGoSymbolChar_goSymbolChar (c : Char) : isGoSymbolChar (goSymbolChar c) := by
  rw [goSymbolChar]
  split
  · assumption
  · decide

private theorem isDigit_goSymbolChar (c : Char) : (goSymbolChar c).isDigit = c.isDigit := by
  rw [goSymbolChar]
  split
  · rfl
  · next refused =>
    cases digit : c.isDigit with
    | false => decide
    | true => simp [Char.isAlphanum, digit] at refused

theorem all_isGoSymbolChar_goSymbolName (label : String) :
    (goSymbolName label).toList.all isGoSymbolChar := by
  rw [goSymbolName, String.toList_ofList, List.all_map, List.all_eq_true]
  exact fun c _ => isGoSymbolChar_goSymbolChar c

/-- Replacing characters makes no digit and loses none, so the label decides. -/
theorem isGoIdentifier_goSymbolName_iff (label : String) :
    isGoIdentifier (goSymbolName label) ↔ ∃ c, firstUndotted? label = some c ∧ c.isDigit = false := by
  have first : (goSymbolName label).toList.head? = (firstUndotted? label).map goSymbolChar := by
    rw [goSymbolName, String.toList_ofList, List.head?_map, firstUndotted?]
  rw [isGoIdentifier, all_isGoSymbolChar_goSymbolName, Bool.and_true, first, Option.any_map,
    Option.any_eq_true]
  simp [isDigit_goSymbolChar]

namespace Segmentation

variable {lines : List String} {segmentation : Segmentation}

/-- The symbols of a listing's tables have letters, digits and underscores in front of their suffix.
These are an identifier exactly if the label has a character behind its leading dots and the first one
is no digit.  The symbol determines the table. -/
theorem symbols_exact (h : Segmentation.ofLines lines = .ok segmentation) :
    (∀ table ∈ segmentation.tables, ∃ name, table.symbol = name ++ "<>" ∧
      name.toList.all isGoSymbolChar ∧
      (isGoIdentifier name ↔ ∃ c, firstUndotted? table.label = some c ∧ c.isDigit = false)) ∧
    ∀ first ∈ segmentation.tables, ∀ second ∈ segmentation.tables,
      first.symbol = second.symbol → first = second := by
  constructor
  · intro table _
    exact ⟨goSymbolName table.label, rfl, all_isGoSymbolChar_goSymbolName table.label,
      isGoIdentifier_goSymbolName_iff table.label⟩
  · intro first inTables second inTables' same
    exact List.inj_on_of_nodup_map (nodup_symbols h) inTables inTables' same

/-- Labels that differ in characters that symbols do not have, and in leading dots. -/
theorem symbols_exact_of_marks :
    Segmentation.ofLines [".rodata", "..a@1:", ".byte 7", "$a.1:", ".byte 8"] =
      .ok ⟨[], [⟨"..a@1", 1, [⟨.one, 7⟩]⟩, ⟨"$a.1", 1, [⟨.one, 8⟩]⟩]⟩ ∧
    (∃ name, goSymbol "..a@1" = name ++ "<>" ∧ isGoIdentifier name) ∧
    (∃ name, goSymbol "$a.1" = name ++ "<>" ∧ isGoIdentifier name) ∧
    goSymbol "..a@1" ≠ goSymbol "$a.1" := by
  have h : Segmentation.ofLines [".rodata", "..a@1:", ".byte 7", "$a.1:", ".byte 8"] =
      .ok ⟨[], [⟨"..a@1", 1, [⟨.one, 7⟩]⟩, ⟨"$a.1", 1, [⟨.one, 8⟩]⟩]⟩ := by
    decide +kernel
  obtain ⟨symbols, distinct⟩ := symbols_exact h
  obtain ⟨name, symbol, -, identifier⟩ := symbols ⟨"..a@1", 1, [⟨.one, 7⟩]⟩ (by decide)
  obtain ⟨name', symbol', -, identifier'⟩ := symbols ⟨"$a.1", 1, [⟨.one, 8⟩]⟩ (by decide)
  refine ⟨h, ⟨name, symbol, identifier.2 ⟨'a', by decide⟩⟩,
    ⟨name', symbol', identifier'.2 ⟨'$', by decide⟩⟩, ?_⟩
  intro same
  have equal := distinct ⟨"..a@1", 1, [⟨.one, 7⟩]⟩ (by decide) ⟨"$a.1", 1, [⟨.one, 8⟩]⟩ (by decide) same
  exact absurd equal (by decide)

/-- Behind its dots, one label has a digit and the other nothing, and so have their symbols. -/
theorem no_identifier_behind_dots :
    Segmentation.ofLines [".rodata", ".1:", ".byte 7", "..:", ".byte 8"] =
      .ok ⟨[], [⟨".1", 1, [⟨.one, 7⟩]⟩, ⟨"..", 1, [⟨.one, 8⟩]⟩]⟩ ∧
    goSymbol ".1" = "1" ++ "<>" ∧ isGoIdentifier "1" = false ∧
    goSymbol ".." = "" ++ "<>" ∧ isGoIdentifier "" = false := by
  decide +kernel

end Segmentation

end AsmTranslit
