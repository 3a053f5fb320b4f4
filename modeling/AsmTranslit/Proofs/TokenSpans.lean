import AsmTranslit.Proofs.TokenTexts
import Mathlib.Data.String.Basic

/-!
# Token spans

Where the tokens of a text stand.  Each of them covers a word of the text, from one character boundary to
another, and that word by itself is scanned as the same single token.  Between the words there is nothing
but spaces and tabs, so a scan loses no character.
-/

namespace AsmTranslit

/-- The part of a text that a token covers. -/
def PlacedToken.lexeme (text : String) (t : PlacedToken) : String :=
  String.Pos.Raw.extract text ⟨t.start⟩ ⟨t.stop⟩

/-- Tokens that cut a text into words, each of which is read as the same token if it stands alone.
Characters between the words separate them. -/
structure CutsIntoWords (text : String) (ts : List PlacedToken) : Prop where
  nonempty : ∀ t ∈ ts, t.start < t.stop
  ordered : ts.Pairwise fun t u => t.stop ≤ u.start
  boundaries : ∀ t ∈ ts,
    (String.Pos.Raw.mk t.start).IsValid text ∧ (String.Pos.Raw.mk t.stop).IsValid text
  covered : ∀ front c back, text.toList = front ++ c :: back →
    c = ' ' ∨ c = '\t' ∨
      ∃ t ∈ ts, t.start ≤ utf8Length front ∧ utf8Length front + c.utf8Size ≤ t.stop
  alone : ∀ t ∈ ts, scan (t.lexeme text) = [⟨t.token, 0, t.stop - t.start⟩]

variable {c : Char} {cs : List Char} {start : Nat} {t : PlacedToken}

theorem utf8Length_eq_utf8Len (cs : List Char) : utf8Length cs = String.utf8Len cs := by
  induction cs with
  | nil => rfl
  | cons c cs ih =>
    rw [String.utf8Len_cons, ← ih, Nat.add_comm]
    rfl

@[simp] theorem utf8Length_nil : utf8Length [] = 0 := rfl

@[simp] theorem utf8Length_cons (c : Char) (cs : List Char) :
    utf8Length (c :: cs) = c.utf8Size + utf8Length cs := rfl

@[simp] theorem utf8Length_append (front back : List Char) :
    utf8Length (front ++ back) = utf8Length front + utf8Length back := by
  simp only [utf8Length_eq_utf8Len, String.utf8Len_append]

private theorem utf8Length_pos (some : cs ≠ []) : 0 < utf8Length cs := by
  obtain ⟨c, cs, rfl⟩ := List.exists_cons_of_ne_nil some
  rw [utf8Length_cons]
  exact Nat.add_pos_left c.utf8Size_pos _

theorem isValid_utf8Length {text : String} {front back : List Char}
    (split : text.toList = front ++ back) : (String.Pos.Raw.mk (utf8Length front)).IsValid text := by
  rw [String.Pos.Raw.isValid_iff_exists_append]
  refine ⟨String.ofList front, String.ofList back, ?_, ?_⟩
  · rw [← String.ofList_append, ← split, String.ofList_toList]
  · rw [String.Pos.Raw.ext_iff, String.byteIdx_rawEndPos, String.utf8ByteSize_ofList,
      utf8Length_eq_utf8Len]

private theorem extract_utf8Length {text : String} {front word back : List Char}
    (split : text.toList = front ++ word ++ back) :
    String.Pos.Raw.extract text ⟨utf8Length front⟩ ⟨utf8Length front + utf8Length word⟩ =
      String.ofList word := by
  rw [← String.ofList_toList (s := text), split, utf8Length_eq_utf8Len, utf8Length_eq_utf8Len,
    String.extract_of_valid]

private theorem numeralTail_self (c : Char) (cs : List Char) :
    numeralTail c (numeralTail c cs) = numeralTail c cs := by
  have digits (cs : List Char) : ∀ d ∈ cs.takeWhile Char.isDigit, d.isDigit := fun d member =>
    List.all_eq_true.1 List.all_takeWhile d member
  fun_cases numeralTail c cs with
  | case1 x digit cs hexadecimal => rw [numeralTail, if_pos hexadecimal, List.takeWhile_idem]
  | case2 => exact numeralTail_digits (digits _)
  | case3 => exact numeralTail_digits (digits _)

private theorem lexemeTail_self (c : Char) (cs : List Char) :
    lexemeTail c (lexemeTail c cs) = lexemeTail c cs := by
  simp only [lexemeTail]
  split
  case isTrue => exact List.takeWhile_idem
  case isFalse =>
    split
    case isTrue => exact numeralTail_self c cs
    case isFalse => rfl

private theorem scanFrom_lexeme (plain : isSeparator c = false) (tail : lexemeTail c cs = cs) :
    scanFrom start (c :: cs) = [⟨Token.ofLexeme c cs, start, start + utf8Length (c :: cs)⟩] := by
  simp only [scanFrom, plain, if_neg Bool.false_ne_true, tail, List.drop_length]

/-- A token of a text covers a word of it, and is what the word is scanned as by itself. -/
theorem exists_word_of_mem_scanFrom (member : t ∈ scanFrom start cs) :
    ∃ front word back, cs = front ++ word ++ back ∧ word ≠ [] ∧
      t.start = start + utf8Length front ∧ t.stop = t.start + utf8Length word ∧
      scanFrom 0 word = [⟨t.token, 0, utf8Length word⟩] := by
  fun_induction scanFrom start cs with
  | case1 => cases member
  | case2 start c cs separates ih =>
    obtain ⟨front, word, back, rfl, some, begins, ends, alone⟩ := ih member
    refine ⟨c :: front, word, back, rfl, some, ?_, ends, alone⟩
    rw [begins, utf8Length_cons, Nat.add_assoc]
  | case3 start c cs separates tail =>
    rename_i stop ih
    have split : lexemeTail c cs ++ cs.drop tail.length = cs := lexemeTail_append_drop c cs
    rcases List.mem_cons.1 member with rfl | later
    · refine ⟨[], c :: lexemeTail c cs, cs.drop tail.length, ?_, List.cons_ne_nil _ _, rfl, rfl, ?_⟩
      · rw [List.nil_append, List.cons_append, split]
      · have plain := Bool.eq_false_of_not_eq_true separates
        rw [scanFrom_lexeme plain (lexemeTail_self c cs), Nat.zero_add]
    · obtain ⟨front, word, back, rest, some, begins, ends, alone⟩ := ih later
      refine ⟨c :: lexemeTail c cs ++ front, word, back, ?_, some, ?_, ends, alone⟩
      · rw [List.cons_append, List.cons_append, List.cons_append, List.append_assoc,
          List.append_assoc, ← List.append_assoc front, ← rest, split]
      · rw [begins, utf8Length_append, ← Nat.add_assoc]

private theorem le_start_of_mem_scanFrom (member : t ∈ scanFrom start cs) : start ≤ t.start := by
  obtain ⟨front, word, back, -, -, begins, -⟩ := exists_word_of_mem_scanFrom member
  omega

private theorem pairwise_scanFrom (start : Nat) (cs : List Char) :
    (scanFrom start cs).Pairwise fun t u => t.stop ≤ u.start := by
  fun_induction scanFrom start cs with
  | case1 => exact .nil
  | case2 start c cs separates ih => exact ih
  | case3 start c cs separates tail =>
    rename_i stop ih
    exact .cons (fun u later => le_start_of_mem_scanFrom later) ih

private theorem utf8Length_le_of_isPrefix {front word : List Char} (h : front <+: word) :
    utf8Length front ≤ utf8Length word := by
  obtain ⟨back, rfl⟩ := h
  rw [utf8Length_append]
  exact Nat.le_add_right _ _

/-- A character of a text is one of a word at the start, or stands behind the word. -/
theorem isPrefix_or_isPrefix_of_append {d : Char} {tail front back : List Char}
    (split : d :: cs = front ++ c :: back) (isTail : tail <+: cs) :
    front ++ [c] <+: d :: tail ∨ d :: tail <+: front := by
  have upToHere : front ++ [c] <+: d :: cs := ⟨back, by rw [split, List.append_assoc]; rfl⟩
  have isWord : d :: tail <+: d :: cs := (List.prefix_cons_inj d).2 isTail
  rcases List.prefix_or_prefix_of_prefix upToHere isWord with inside | reaches
  · exact .inl inside
  · rcases List.prefix_concat_iff.1 reaches with same | behind
    · exact .inl (same ▸ List.prefix_rfl)
    · exact .inr behind

/-- A character of a text separates tokens, or one of them covers it. -/
theorem separates_or_covered (start : Nat) {front back : List Char} (split : cs = front ++ c :: back) :
    isSeparator c ∨ ∃ t ∈ scanFrom start cs, t.start ≤ start + utf8Length front ∧
      start + utf8Length front + c.utf8Size ≤ t.stop := by
  fun_induction scanFrom start cs generalizing front with
  | case1 => simp at split
  | case2 start d cs separates ih =>
    cases front with
    | nil =>
      obtain ⟨rfl, -⟩ := List.cons.inj split
      exact .inl separates
    | cons d front =>
      obtain ⟨rfl, rest⟩ := List.cons.inj split
      rw [utf8Length_cons, ← Nat.add_assoc]
      exact ih rest
  | case3 start d cs separates tail =>
    rename_i stop ih
    rcases isPrefix_or_isPrefix_of_append split (lexemeTail_isPrefix d cs) with inside | ⟨between, rfl⟩
    · have length := utf8Length_le_of_isPrefix inside
      rw [utf8Length_append, utf8Length_cons, utf8Length_nil, Nat.add_zero] at length
      refine .inr ⟨_, List.mem_cons_self, Nat.le_add_right _ _, ?_⟩
      rw [Nat.add_assoc]
      exact Nat.add_le_add_left length start
    · rw [List.cons_append, List.cons_append, List.append_assoc] at split
      obtain ⟨-, behind⟩ := List.cons.inj split
      have rest := List.append_cancel_left ((lexemeTail_append_drop d cs).trans behind)
      rw [utf8Length_append, ← Nat.add_assoc]
      rcases ih rest with separates | ⟨t, later, begins, ends⟩
      · exact .inl separates
      · exact .inr ⟨t, List.mem_cons_of_mem _ later, begins, ends⟩

/-- A scan cuts its text into words. -/
theorem scan_cutsIntoWords (text : String) : CutsIntoWords text (scan text) where
  nonempty t member := by
    obtain ⟨front, word, back, -, some, -, ends, -⟩ := exists_word_of_mem_scanFrom member
    have positive := utf8Length_pos some
    omega
  ordered := pairwise_scanFrom 0 text.toList
  boundaries t member := by
    obtain ⟨front, word, back, split, -, begins, ends, -⟩ := exists_word_of_mem_scanFrom member
    rw [Nat.zero_add] at begins
    rw [ends, begins, ← utf8Length_append]
    rw [List.append_assoc] at split
    exact ⟨isValid_utf8Length split, isValid_utf8Length (by rw [split, List.append_assoc])⟩
  covered front c back split := by
    rcases separates_or_covered 0 split with separates | ⟨t, member, begins, ends⟩
    · rw [isSeparator, Bool.or_eq_true, beq_iff_eq, beq_iff_eq] at separates
      exact or_assoc.1 (.inl separates)
    · rw [Nat.zero_add] at begins ends
      exact .inr (.inr ⟨t, member, begins, ends⟩)
  alone t member := by
    obtain ⟨front, word, back, split, -, begins, ends, alone⟩ := exists_word_of_mem_scanFrom member
    rw [Nat.zero_add] at begins
    have lexeme : t.lexeme text = String.ofList word := by
      rw [PlacedToken.lexeme, ends, begins, extract_utf8Length split]
    rw [lexeme, scan, String.toList_ofList, alone, ends, Nat.add_sub_cancel_left]

example : (scan "0x1g é\t0x").map (PlacedToken.lexeme "0x1g é\t0x") = ["0x1", "g", "é", "0", "x"] := by
  decide +kernel

end AsmTranslit
