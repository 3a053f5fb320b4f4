import AsmTranslit.SourceLine
import Mathlib.Data.List.DropRight

/-!
# Contents of lines

What is left of a line without its comment and the blanks around it.  Leading blanks do not hide a
comment, and what stands behind the first word of a line does not depend on the word, so one word can
be put in the place of another.
-/

namespace AsmTranslit

variable {front word rest arguments cs xs : List Char} {line : String}

private theorem trim_isPrefix (cs : List Char) : trim cs <+: trimStart cs :=
  List.rdropWhile_prefix isBlank (trimStart cs)

theorem trimStart_of_isPrefix (h : xs <+: trimStart cs) : trimStart xs = xs := by
  apply List.dropWhile_eq_self_iff.2
  intro nonempty
  have start : 0 < (trimStart cs).length := Nat.lt_of_lt_of_le nonempty h.length_le
  have first := List.dropWhile_eq_self_iff.1 (List.dropWhile_idempotent isBlank cs) start
  rwa [h.getElem nonempty]

theorem trim_trim (cs : List Char) : trim (trim cs) = trim cs := by
  have outer : trimEnd (trim cs) = trim cs := List.rdropWhile_idempotent isBlank (trimStart cs)
  rw [trim, trimStart_of_isPrefix (trim_isPrefix cs), outer]

theorem trimStart_append (blanks : ∀ c ∈ front, isBlank c) :
    trimStart (front ++ rest) = trimStart rest := by
  rw [trimStart, List.dropWhile_append_of_pos blanks, trimStart]

theorem trimStart_word (whole : ∀ c ∈ word, isBlank c = false) (some : word ≠ []) :
    trimStart (word ++ rest) = word ++ rest := by
  obtain ⟨c, cs, rfl⟩ := List.exists_cons_of_ne_nil some
  rw [List.cons_append, trimStart, List.dropWhile_cons_of_neg]
  simp [whole c List.mem_cons_self]

theorem trimEnd_append (whole : ∀ c ∈ word, isBlank c = false) :
    trimEnd (word ++ rest) = word ++ trimEnd rest := by
  have kept : word.reverse.dropWhile isBlank = word.reverse := by
    rw [List.dropWhile_eq_self_iff]
    intro nonempty
    have inWord : word.reverse[0] ∈ word := List.mem_reverse.1 (List.getElem_mem nonempty)
    rw [whole _ inWord]
    exact Bool.false_ne_true
  rw [trimEnd, trimEnd, List.reverse_append, List.dropWhile_append, kept]
  split
  case isTrue none =>
    rw [List.isEmpty_iff] at none
    simp [none]
  case isFalse => simp

theorem trimEnd_append_blanks (blanks : ∀ c ∈ rest, isBlank c) :
    trimEnd (word ++ rest) = trimEnd word := by
  have reversed : ∀ c ∈ rest.reverse, isBlank c := fun c member => blanks c (List.mem_reverse.1 member)
  rw [trimEnd, trimEnd, List.reverse_append, List.dropWhile_append_of_pos reversed]

theorem trimEnd_word (whole : ∀ c ∈ word, isBlank c = false) (some : word ≠ []) :
    trimEnd (front ++ word) = front ++ word := by
  have reversed : ∀ c ∈ word.reverse, isBlank c = false := fun c member =>
    whole c (List.mem_reverse.1 member)
  have kept : trimStart (word.reverse ++ front.reverse) = word.reverse ++ front.reverse :=
    trimStart_word reversed (by simpa using some)
  calc trimEnd (front ++ word)
      = (trimStart (word.reverse ++ front.reverse)).reverse := by rw [trimEnd, List.reverse_append]; rfl
    _ = front ++ word := by rw [kept, List.reverse_append, List.reverse_reverse, List.reverse_reverse]

theorem isSymbolChar_of_isDirectiveChar {c : Char} (h : isDirectiveChar c) : isSymbolChar c := by
  simp only [isDirectiveChar, Bool.or_eq_true] at h
  simp only [isSymbolChar, Bool.or_eq_true]
  tauto

theorem isDirectiveChar_plain {c : Char} (h : isDirectiveChar c) :
    isBlank c = false ∧ c ≠ '"' ∧ c ≠ '#' := by
  have differs {d : Char} (noName : isDirectiveChar d = false) : c ≠ d := by
    rintro rfl
    rw [h] at noName
    cases noName
  refine ⟨?_, differs (by decide), differs (by decide)⟩
  rw [Bool.eq_false_iff]
  intro blank
  simp only [isDirectiveChar, Bool.or_eq_true, beq_iff_eq, isAlphanum_iff_toNat] at h
  simp only [isBlank, Bool.or_eq_true, Bool.and_eq_true, decide_eq_true_eq, beq_iff_eq] at blank
  rcases h with (word | rfl) | rfl
  · omega
  · revert blank
    decide
  · revert blank
    decide

theorem beforeComment_append (plain : ∀ c ∈ front, c ≠ '"' ∧ c ≠ '#') :
    beforeComment .outside (front ++ rest) = front ++ beforeComment .outside rest := by
  induction front with
  | nil => rfl
  | cons c cs ih =>
    obtain ⟨noQuote, noComment⟩ := plain c List.mem_cons_self
    have later := ih fun d member => plain d (List.mem_cons_of_mem c member)
    simp [beforeComment, QuoteState.next, noQuote, noComment, later]

theorem beforeComment_isPrefix (state : QuoteState) (cs : List Char) :
    beforeComment state cs <+: cs := by
  induction cs generalizing state with
  | nil => exact List.nil_prefix
  | cons c cs ih =>
    rw [beforeComment]
    split
    case isTrue => exact List.nil_prefix
    case isFalse => exact (List.prefix_cons_inj c).2 (ih _)

/-- Comments start behind the blanks in front of a line. -/
theorem lineContent_eq (line : String) :
    lineContent line = trimEnd (beforeComment .outside (trimStart line.toList)) := by
  have blanks : ∀ c ∈ line.toList.takeWhile isBlank, isBlank c := fun c member =>
    List.all_eq_true.1 List.all_takeWhile c member
  have plain : ∀ c ∈ line.toList.takeWhile isBlank, c ≠ '"' ∧ c ≠ '#' := by
    intro c member
    have blank := blanks c member
    constructor <;> rintro rfl <;> revert blank <;> decide
  have split : line.toList = line.toList.takeWhile isBlank ++ trimStart line.toList :=
    List.takeWhile_append_dropWhile.symm
  have trimmed := trimStart_of_isPrefix (beforeComment_isPrefix .outside (trimStart line.toList))
  rw [lineContent, trim]
  conv_lhs => rw [split, beforeComment_append plain, trimStart_append blanks, trimmed]

/-- The content of a line that starts with a word, behind blanks. -/
theorem lineContent_append (blanks : ∀ c ∈ front, isBlank c) (isWord : ∀ c ∈ word, isDirectiveChar c)
    (some : word ≠ []) :
    lineContent (String.ofList (front ++ word ++ rest)) =
      word ++ trimEnd (beforeComment .outside rest) := by
  have whole : ∀ c ∈ word, isBlank c = false := fun c member =>
    (isDirectiveChar_plain (isWord c member)).1
  have plain : ∀ c ∈ word, c ≠ '"' ∧ c ≠ '#' := fun c member =>
    (isDirectiveChar_plain (isWord c member)).2
  rw [lineContent_eq, String.toList_ofList, List.append_assoc, trimStart_append blanks,
    trimStart_word whole some, beforeComment_append plain, trimEnd_append whole]

/-- Where the first word of a line stands. -/
theorem toList_of_lineContent (h : lineContent line = word ++ arguments) :
    line.toList = line.toList.takeWhile isBlank ++ word ++
      (trimStart line.toList).drop word.length := by
  have inContent : word <+: lineContent line := ⟨arguments, h.symm⟩
  rw [lineContent_eq] at inContent
  have inLine : word <+: trimStart line.toList :=
    (inContent.trans (List.rdropWhile_prefix isBlank _)).trans (beforeComment_isPrefix _ _)
  obtain ⟨back, split⟩ := inLine
  have behind : (trimStart line.toList).drop word.length = back := by
    rw [← split, List.drop_left]
  rw [behind, List.append_assoc, split]
  exact List.takeWhile_append_dropWhile.symm

/-- A line with another first word has the same content behind it. -/
theorem lineContent_replace {old new : List Char} (h : lineContent line = old ++ arguments)
    (isOld : ∀ c ∈ old, isDirectiveChar c) (isNew : ∀ c ∈ new, isDirectiveChar c)
    (someOld : old ≠ []) (someNew : new ≠ []) :
    lineContent (String.ofList (line.toList.takeWhile isBlank ++ new ++
      (trimStart line.toList).drop old.length)) = new ++ arguments := by
  have blanks : ∀ c ∈ line.toList.takeWhile isBlank, isBlank c := fun c member =>
    List.all_eq_true.1 List.all_takeWhile c member
  have own : lineContent line =
      old ++ trimEnd (beforeComment .outside ((trimStart line.toList).drop old.length)) := by
    rw [← lineContent_append blanks isOld someOld, ← toList_of_lineContent h, String.ofList_toList]
  rw [lineContent_append blanks isNew someNew, ← List.append_cancel_left (h.symm.trans own)]

end AsmTranslit
