import AsmTranslit.Correlation
import AsmTranslit.Statement

/-!
# Whole symbols

Where a part of a text stands by itself: no symbol character is next to it.  Operands stand by
themselves in the text of their instruction.  A symbol is mentioned wherever it stands by itself,
although the search takes matches from the left and goes on behind each of them.
-/

namespace AsmTranslit

/-- A part of a text next to which there are no symbol characters. -/
def StandsIn (part whole : List Char) : Prop :=
  ∃ front back, whole = front ++ part ++ back ∧ joins front.getLast? = false ∧
    joins back.head? = false

variable {part mid whole cs : List Char} {c : Char}

theorem StandsIn.trans (inner : StandsIn part mid) (outer : StandsIn mid whole) :
    StandsIn part whole := by
  obtain ⟨front, back, rfl, before, after⟩ := inner
  obtain ⟨front', back', rfl, before', after'⟩ := outer
  refine ⟨front' ++ front, back ++ back', by simp only [List.append_assoc], ?_, ?_⟩
  · cases last : front.getLast? with
    | none => simpa [List.getLast?_append, last] using before'
    | some d => simpa [List.getLast?_append, last] using before
  · cases first : back.head? with
    | none => simpa [List.head?_append, first] using after'
    | some d => simpa [List.head?_append, first] using after

/-- No blank is a symbol character. -/
theorem isSymbolChar_of_isBlank (blank : isBlank c) : isSymbolChar c = false := by
  have upper : c.isUpper = decide (65 ≤ c.val ∧ c.val ≤ 90) := rfl
  have lower : c.isLower = (decide (97 ≤ c.val) && decide (c.val ≤ 122)) := rfl
  have digit : c.isDigit = (decide (48 ≤ c.val) && decide (c.val ≤ 57)) := rfl
  have letter : c.isAlphanum = (c.isUpper || c.isLower || c.isDigit) := rfl
  have code : c.toNat = c.val.toNat := rfl
  rw [Bool.eq_false_iff]
  intro symbol
  simp only [isSymbolChar, letter, upper, lower, digit, Bool.or_eq_true, Bool.and_eq_true,
    decide_eq_true_eq, beq_iff_eq, UInt32.le_iff_toNat_le] at symbol
  simp only [isBlank, Bool.or_eq_true, Bool.and_eq_true, decide_eq_true_eq, beq_iff_eq] at blank
  rcases symbol with (((alphanumeric | rfl) | rfl) | rfl) | rfl
  · simp at alphanumeric
    omega
  all_goals simp at blank

theorem isBlank_of_isSymbolChar (symbol : isSymbolChar c) : isBlank c = false := by
  rw [Bool.eq_false_iff]
  intro blank
  rw [isSymbolChar_of_isBlank blank] at symbol
  cases symbol

theorem joins_getLast?_of_forall (h : ∀ c ∈ cs, isSymbolChar c = false) :
    joins cs.getLast? = false := by
  cases last : cs.getLast? with
  | none => rfl
  | some d => exact h d (List.mem_of_getLast? last)

private theorem joins_head?_of_forall (h : ∀ c ∈ cs, isSymbolChar c = false) :
    joins cs.head? = false := by
  cases first : cs.head? with
  | none => rfl
  | some d => exact h d (List.mem_of_head? first)

private theorem standsIn_trimStart (cs : List Char) : StandsIn (trimStart cs) cs := by
  refine ⟨cs.takeWhile isBlank, [], ?_, ?_, rfl⟩
  · rw [List.append_nil, trimStart, List.takeWhile_append_dropWhile]
  · apply joins_getLast?_of_forall
    intro c member
    exact isSymbolChar_of_isBlank (List.all_eq_true.1 List.all_takeWhile c member)

theorem standsIn_trim (cs : List Char) : StandsIn (trim cs) cs := by
  refine StandsIn.trans ?_ (standsIn_trimStart cs)
  refine ⟨[], ((trimStart cs).reverse.takeWhile isBlank).reverse, ?_, rfl, ?_⟩
  · rw [List.nil_append, trim, trimEnd, ← List.reverse_append, List.takeWhile_append_dropWhile,
      List.reverse_reverse]
  · apply joins_head?_of_forall
    intro c member
    rw [List.mem_reverse] at member
    exact isSymbolChar_of_isBlank (List.all_eq_true.1 List.all_takeWhile c member)

section Pieces

variable {σ : Type} {step : σ → Char → σ} {cut : σ → Char → Bool}

/-- Pieces stand by themselves if no symbol character cuts.  The first is at the start of the text. -/
theorem standsIn_of_mem_pieces (noSymbol : ∀ state c, cut state c → isSymbolChar c = false)
    (state : σ) (cs : List Char) {first : List Char} {rest : List (List Char)}
    (h : pieces step cut state cs = first :: rest) :
    (∃ back, cs = first ++ back ∧ joins back.head? = false) ∧
      ∀ piece ∈ rest, ∃ front back, front ≠ [] ∧ cs = front ++ piece ++ back ∧
        joins front.getLast? = false ∧ joins back.head? = false := by
  induction cs generalizing state first rest with
  | nil =>
    obtain ⟨rfl, rfl⟩ := List.cons.inj h
    exact ⟨⟨[], rfl, rfl⟩, by simp⟩
  | cons c cs ih =>
    have longer {front : List Char} (some : front ≠ []) (before : joins front.getLast? = false) :
        joins (c :: front).getLast? = false := by
      rwa [List.getLast?_cons_of_ne_nil some]
    rw [pieces] at h
    split at h
    case isTrue cuts =>
      obtain ⟨rfl, rfl⟩ := List.cons.inj h
      have mark : joins (some c) = false := noSymbol state c cuts
      refine ⟨⟨c :: cs, rfl, mark⟩, ?_⟩
      obtain ⟨next, others, split⟩ := List.exists_cons_of_ne_nil (pieces_ne_nil step cut state cs)
      obtain ⟨⟨back, atStart, after⟩, later⟩ := ih state split
      rw [split]
      intro piece member
      rcases List.mem_cons.1 member with rfl | inOthers
      · exact ⟨[c], back, by simp, by simp [atStart], mark, after⟩
      · obtain ⟨front, back, some, rfl, before, after⟩ := later piece inOthers
        exact ⟨c :: front, back, by simp, by simp, longer some before, after⟩
    case isFalse =>
      obtain ⟨next, others, split⟩ :=
        List.exists_cons_of_ne_nil (pieces_ne_nil step cut (step state c) cs)
      obtain ⟨⟨back, atStart, after⟩, later⟩ := ih (step state c) split
      rw [split] at h
      obtain ⟨rfl, rfl⟩ := List.cons.inj h
      refine ⟨⟨back, by simp [atStart], after⟩, ?_⟩
      intro piece member
      obtain ⟨front, back, some, rfl, before, after⟩ := later piece member
      exact ⟨c :: front, back, by simp, by simp, longer some before, after⟩

theorem standsIn_piece (noSymbol : ∀ state c, cut state c → isSymbolChar c = false) {state : σ}
    (member : part ∈ pieces step cut state cs) : StandsIn part cs := by
  obtain ⟨first, rest, split⟩ := List.exists_cons_of_ne_nil (pieces_ne_nil step cut state cs)
  obtain ⟨⟨back, atStart, after⟩, later⟩ := standsIn_of_mem_pieces noSymbol state cs split
  rw [split] at member
  rcases List.mem_cons.1 member with rfl | inRest
  · exact ⟨[], back, by simpa using atStart, rfl, after⟩
  · obtain ⟨front, back, -, same, before, after⟩ := later part inRest
    exact ⟨front, back, same, before, after⟩

end Pieces

theorem exists_of_mem_fields {parts : List (List Char)} {field : String} (h : field ∈ fields parts) :
    ∃ part ∈ parts, field.toList = trim part := by
  rw [fields] at h
  split at h
  case h_1 => simp at h
  case h_2 =>
    obtain ⟨trimmed, member, rfl⟩ := List.mem_map.1 h
    obtain ⟨part, inParts, rfl⟩ := List.mem_map.1 member
    exact ⟨part, inParts, String.toList_ofList⟩

private theorem standsIn_splitOperands {text operand : String} (h : operand ∈ splitOperands text) :
    StandsIn operand.toList text.toList := by
  obtain ⟨piece, member, same⟩ := exists_of_mem_fields h
  rw [same]
  apply (standsIn_trim piece).trans
  apply standsIn_piece _ member
  intro depth c cuts
  obtain ⟨-, rfl⟩ : depth = 0 ∧ c = ',' := by simpa using cuts
  decide

/-- What follows the first word stands by itself if there is anything. -/
theorem standsIn_afterWord (rest : trimStart (cs.dropWhile isWordChar) ≠ []) :
    StandsIn (trimStart (cs.dropWhile isWordChar)) cs := by
  have word : cs.takeWhile isWordChar ++ ((cs.dropWhile isWordChar).takeWhile isBlank ++
      trimStart (cs.dropWhile isWordChar)) = cs := by
    rw [trimStart, List.takeWhile_append_dropWhile, List.takeWhile_append_dropWhile]
  have blanks : (cs.dropWhile isWordChar).takeWhile isBlank ≠ [] := by
    cases behind : cs.dropWhile isWordChar with
    | nil => simp [behind] at rest
    | cons d ds =>
      have stops := List.head?_dropWhile_not isWordChar cs
      have blank : isBlank d := by simpa [behind, isWordChar] using stops
      simp [blank]
  refine ⟨cs.takeWhile isWordChar ++ (cs.dropWhile isWordChar).takeWhile isBlank, [], ?_, ?_, rfl⟩
  · rw [List.append_nil, List.append_assoc, word]
  · rw [List.getLast?_append, List.getLast?_eq_some_getLast blanks, Option.some_or,
      ← List.getLast?_eq_some_getLast blanks]
    apply joins_getLast?_of_forall
    intro c member
    exact isSymbolChar_of_isBlank (List.all_eq_true.1 List.all_takeWhile c member)

private theorem standsIn_statementOf {operand : String} (h : operand ∈ (statementOf cs).operands) :
    StandsIn operand.toList cs := by
  fun_induction statementOf cs with
  | case1 => simp at h
  | case2 c cs word rest more statement ih =>
    have some : rest ≠ [] := by
      intro none
      simp [none] at more
    exact (ih h).trans (standsIn_afterWord some)
  | case3 c cs word rest =>
    have inRest : StandsIn operand.toList rest := by simpa using standsIn_splitOperands h
    have some : rest ≠ [] := by
      intro none
      have noOperands : splitOperands (String.ofList []) = [] := by decide
      simp [none, noOperands] at h
    exact inRest.trans (standsIn_afterWord some)

theorem standsIn_statement {text operand : String} (h : operand ∈ (Statement.ofText text).operands) :
    StandsIn operand.toList text.toList :=
  (standsIn_statementOf h).trans (standsIn_trim text.toList)

/-- The search finds a symbol that stands by itself.  A match in front of it does not reach into it,
since the character in front of the symbol is not one of the symbol's. -/
theorem mentionsAfter_of_standing {before : Option Char} {s : Char} {ss front back : List Char}
    (symbol : ∀ c ∈ s :: ss, isSymbolChar c) (apart : joins (front.getLast?.or before) = false)
    (after : joins back.head? = false) :
    mentionsAfter before s ss (front ++ (s :: ss ++ back)) := by
  -- a match skips all of its characters, so the text in front does not shrink by one
  induction size : front.length using Nat.strongRecOn generalizing before front with
  | _ n ih =>
    cases front with
    | nil =>
      have found : (s :: ss).isPrefixOf (s :: (ss ++ back)) := by simp
      have rest : (ss ++ back).drop ss.length = back := List.drop_left
      rw [List.nil_append, List.cons_append, mentionsAfter, if_pos found]
      simp only [List.getLast?_nil, Option.none_or] at apart
      simp [rest, apart, after]
    | cons f others =>
      rw [List.cons_append, mentionsAfter]
      split
      case isTrue found =>
        have fits : s :: ss <+: f :: others ++ (s :: ss ++ back) := List.isPrefixOf_iff_prefix.1 found
        rcases List.prefix_or_prefix_of_prefix fits (List.prefix_append _ _) with short | long
        · obtain ⟨gap, split⟩ := short
          rw [List.cons_append] at split
          obtain ⟨rfl, rfl⟩ := List.cons.inj split
          have rest : (ss ++ gap ++ (s :: ss ++ back)).drop ss.length = gap ++ (s :: ss ++ back) := by
            rw [List.append_assoc, List.drop_left]
          have smaller : gap.length < n := by
            rw [← size, List.length_cons, List.length_append]
            omega
          have later : joins (gap.getLast?.or (s :: ss).getLast?) = false := by
            rw [← List.getLast?_append, List.cons_append]
            rwa [List.getLast?_cons, Option.some_or, ← List.getLast?_cons] at apart
          rw [rest]
          simp only [ih gap.length smaller later rfl, Bool.or_true]
        · -- the match would reach into the symbol: all that stands in front is part of it
          have inSymbol : ∀ c ∈ f :: others, isSymbolChar c := fun c member =>
            symbol c (long.subset member)
          have last := inSymbol _ (List.getLast_mem (List.cons_ne_nil f others))
          rw [List.getLast?_eq_some_getLast (List.cons_ne_nil f others), Option.some_or] at apart
          simp [joins, last] at apart
      case isFalse =>
        have later : joins (others.getLast?.or (some f)) = false := by
          rw [List.getLast?_cons, Option.some_or] at apart
          cases last : others.getLast? <;> simpa [last] using apart
        exact ih others.length (by simp [← size]) later rfl

theorem mentions_of_standsIn {text symbol : String} (some : symbol.toList ≠ [])
    (characters : ∀ c ∈ symbol.toList, isSymbolChar c)
    (stands : StandsIn symbol.toList text.toList) : mentions text symbol := by
  obtain ⟨front, back, split, before, after⟩ := stands
  rw [mentions]
  cases named : symbol.toList with
  | nil => exact absurd named some
  | cons s ss =>
    rw [named] at split characters
    rw [split, List.append_assoc]
    exact mentionsAfter_of_standing characters (by simpa using before) after

end AsmTranslit
