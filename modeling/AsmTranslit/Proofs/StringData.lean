import AsmTranslit.Proofs.AlignmentSpellings
import AsmTranslit.Proofs.DataBytes
import AsmTranslit.Proofs.WholeSymbols

/-!
# String data

Bytes written as string literals are the bytes that a table gets.  A literal stays within its quotation
marks, whatever `#`, `,` and escapes it has, so that no comment starts in it and no comma of it separates
arguments; and each byte is read from the characters that it is written with, whatever follows them.
-/

namespace AsmTranslit

-- A statement on the characters of a text is decided along the text, never over every character.
attribute [local instance (high)] List.decidableBAll

/-- How a byte is written in a string: as its ASCII character if that is printable, with a backslash in
front of a quotation mark or a backslash, and as an octal escape otherwise. -/
def quotedByte (byte : UInt8) : List Char :=
  if byte = 34 ∨ byte = 92 then ['\\', Char.ofNat byte.toNat]
  else if 32 ≤ byte.toNat ∧ byte.toNat < 127 then [Char.ofNat byte.toNat]
  else '\\' :: [byte.toNat / 64, byte.toNat / 8 % 8, byte.toNat % 8].map Nat.digitChar

def quoted (bytes : List UInt8) : List Char :=
  '"' :: (bytes.flatMap quotedByte ++ ['"'])

/-- The string literals of a directive, with blanks behind the commas. -/
def quotedList (blanks : List Char) (strings : List (List UInt8)) : List Char :=
  (',' :: blanks).intercalate (strings.map quoted)

/-- No character of a text that starts in a state is a mark outside strings. -/
def FreeOf (mark : Char) : QuoteState → List Char → Prop
  | _, [] => True
  | state, c :: cs => (state = .outside → c ≠ mark) ∧ FreeOf mark (state.next c) cs

/-- A text in which all strings end, and no character outside them is a mark. -/
structure Harmless (mark : Char) (cs : List Char) : Prop where
  free : FreeOf mark .outside cs
  ends : cs.foldl QuoteState.next .outside = .outside

variable {mark : Char} {state : QuoteState} {xs ys : List Char}

theorem freeOf_append :
    FreeOf mark state (xs ++ ys) ↔
      FreeOf mark state xs ∧ FreeOf mark (xs.foldl QuoteState.next state) ys := by
  induction xs generalizing state with
  | nil => simp [FreeOf]
  | cons c cs ih => rw [List.cons_append, FreeOf, ih, FreeOf, List.foldl_cons, and_assoc]

theorem Harmless.append (first : Harmless mark xs) (second : Harmless mark ys) :
    Harmless mark (xs ++ ys) where
  free := by
    rw [freeOf_append, first.ends]
    exact ⟨first.free, second.free⟩
  ends := by rw [List.foldl_append, first.ends, second.ends]

theorem passes {c : Char} (plain : state = .outside → c ≠ mark) :
    (state == .outside && c == mark) = false := by
  rw [Bool.and_eq_false_imp]
  intro outside
  simpa using plain (by simpa using outside)

/-- No comment starts in a text without marks. -/
theorem beforeComment_freeOf (h : FreeOf '#' state xs) :
    beforeComment state (xs ++ ys) = xs ++ beforeComment (xs.foldl QuoteState.next state) ys := by
  induction xs generalizing state with
  | nil => rfl
  | cons c cs ih =>
    rw [List.cons_append, beforeComment, passes h.1, if_neg Bool.false_ne_true, ih h.2]
    rfl

abbrev argumentPieces (state : QuoteState) (cs : List Char) : List (List Char) :=
  pieces QuoteState.next (fun state c => state == .outside && c == ',') state cs

theorem argumentPieces_cons {c : Char} {cs piece : List Char} {rest : List (List Char)}
    (plain : state = .outside → c ≠ ',') (later : argumentPieces (state.next c) cs = piece :: rest) :
    argumentPieces state (c :: cs) = (c :: piece) :: rest := by
  rw [argumentPieces] at later
  rw [argumentPieces, pieces, passes plain, if_neg Bool.false_ne_true, later]

private theorem argumentPieces_freeOf (h : FreeOf ',' state xs) : argumentPieces state xs = [xs] := by
  induction xs generalizing state with
  | nil => rfl
  | cons c cs ih => exact argumentPieces_cons h.1 (ih h.2)

private theorem argumentPieces_append (h : FreeOf ',' state xs)
    (ends : xs.foldl QuoteState.next state = .outside) :
    argumentPieces state (xs ++ ',' :: ys) = xs :: argumentPieces .outside ys := by
  induction xs generalizing state with
  | nil =>
    obtain rfl : state = .outside := ends
    rfl
  | cons c cs ih => exact argumentPieces_cons h.1 (ih h.2 ends)

theorem harmless_of_forall (plain : ∀ c ∈ xs, c ≠ '"' ∧ c ≠ mark) : Harmless mark xs := by
  induction xs with
  | nil => exact ⟨trivial, rfl⟩
  | cons c cs ih =>
    obtain ⟨noQuote, noMark⟩ := plain c List.mem_cons_self
    have same : QuoteState.next .outside c = .outside := by simp [QuoteState.next, noQuote]
    obtain ⟨later, ends⟩ := ih fun d member => plain d (List.mem_cons_of_mem c member)
    refine ⟨⟨fun _ => noMark, ?_⟩, ?_⟩
    · rwa [same]
    · rwa [List.foldl_cons, same]

theorem harmless_blanks (blanks : ∀ c ∈ xs, isBlank c) (noBlank : isBlank mark = false) :
    Harmless mark xs := by
  apply harmless_of_forall
  intro c member
  have blank := blanks c member
  constructor
  · rintro rfl
    revert blank
    decide
  · rintro rfl
    rw [blank] at noBlank
    cases noBlank

/-- What is written for a byte: a character that means nothing in a string, or an escape, which has no
use for the text behind it. -/
inductive Writes (byte : UInt8) : List Char → Prop
  | plain {c : Char} (noQuote : c ≠ '"') (noBackslash : c ≠ '\\')
    (own : String.utf8EncodeChar c = [byte]) : Writes byte [c]
  | escape (c : Char) (digits : List Char) (plain : ∀ d ∈ digits, d ≠ '"' ∧ d ≠ '\\')
    (own : ∀ rest, escape c (digits ++ rest) = ([byte], digits.length)) :
    Writes byte ('\\' :: c :: digits)

theorem utf8EncodeChar_ofNat {n : Nat} (ascii : n < 128) :
    String.utf8EncodeChar (Char.ofNat n) = [UInt8.ofNat n] := by
  have all : ∀ n : Fin 128, String.utf8EncodeChar (Char.ofNat n) = [UInt8.ofNat n] := by decide
  exact all ⟨n, ascii⟩

theorem digitChar_octal {n : Nat} (small : n < 8) :
    isDigitOf 8 (Nat.digitChar n) ∧ digitValue? (Nat.digitChar n) = some n ∧
      escapeByte? (Nat.digitChar n) = none ∧ Nat.digitChar n ≠ '"' ∧ Nat.digitChar n ≠ '\\' := by
  have all : ∀ n : Fin 8, isDigitOf 8 (Nat.digitChar n) ∧ digitValue? (Nat.digitChar n) = some n.val ∧
      escapeByte? (Nat.digitChar n) = none ∧ Nat.digitChar n ≠ '"' ∧ Nat.digitChar n ≠ '\\' := by
    decide
  exact all ⟨n, small⟩

theorem writes_quotedByte (byte : UInt8) : Writes byte (quotedByte byte) := by
  rw [quotedByte]
  split
  case isTrue special =>
    refine .escape _ [] (by simp) fun rest => ?_
    rcases special with rfl | rfl <;> rfl
  case isFalse ordinary =>
    split
    case isTrue printable =>
      have own := utf8EncodeChar_ofNat (show byte.toNat < 128 by omega)
      rw [UInt8.ofNat_toNat] at own
      have differs {other : UInt8} (h : byte ≠ other) (ascii : other.toNat < 128) :
          Char.ofNat byte.toNat ≠ Char.ofNat other.toNat := by
        intro same
        rw [same, utf8EncodeChar_ofNat ascii, UInt8.ofNat_toNat] at own
        exact h (List.cons.inj own).1.symm
      rw [not_or] at ordinary
      exact .plain (differs ordinary.1 (by decide)) (differs ordinary.2 (by decide)) own
    case isFalse =>
      have large : byte.toNat < 256 := byte.toNat_lt
      obtain ⟨first, value, noLetter, -⟩ := digitChar_octal (show byte.toNat / 64 < 8 by omega)
      obtain ⟨second, value', -, plain⟩ := digitChar_octal (Nat.mod_lt (byte.toNat / 8) (by decide : 8 > 0))
      obtain ⟨third, value'', -, plain'⟩ := digitChar_octal (Nat.mod_lt byte.toNat (by decide : 8 > 0))
      refine .escape _ _ (by simp [plain, plain']) fun rest => ?_
      have number : (byte.toNat / 64 * 8 + byte.toNat / 8 % 8) * 8 + byte.toNat % 8 = byte.toNat := by
        omega
      simp [escape, noLetter, first, second, third, numeralValue, value, value', value'', number]

private theorem Writes.freeOf {byte : UInt8} (h : Writes byte xs) (mark : Char) :
    FreeOf mark .inside xs ∧ xs.foldl QuoteState.next .inside = .inside := by
  have inside {c : Char} (noQuote : c ≠ '"') (noBackslash : c ≠ '\\') :
      QuoteState.next .inside c = .inside := by
    simp [QuoteState.next, noQuote, noBackslash]
  have digits {ds : List Char} (plain : ∀ d ∈ ds, d ≠ '"' ∧ d ≠ '\\') :
      FreeOf mark .inside ds ∧ ds.foldl QuoteState.next .inside = .inside := by
    induction ds with
    | nil => exact ⟨trivial, rfl⟩
    | cons d ds ih =>
      obtain ⟨noQuote, noBackslash⟩ := plain d List.mem_cons_self
      rw [FreeOf, List.foldl_cons, inside noQuote noBackslash]
      obtain ⟨later, stays⟩ := ih fun e member => plain e (List.mem_cons_of_mem d member)
      exact ⟨⟨fun outside => absurd outside (by decide), later⟩, stays⟩
  cases h with
  | plain noQuote noBackslash => exact digits (by simp [noQuote, noBackslash])
  | escape c ds plain =>
    obtain ⟨later, stays⟩ := digits plain
    exact ⟨⟨fun outside => absurd outside (by decide), fun outside => absurd outside (by decide), later⟩,
      stays⟩

/-- A byte is read from what is written for it, whatever follows. -/
theorem Writes.quotedBytes_append {byte : UInt8} (h : Writes byte xs) (rest : List Char) :
    quotedBytes (xs ++ rest) = (quotedBytes rest).map (byte :: ·) := by
  cases h with
  | plain noQuote noBackslash own =>
    rw [List.singleton_append, quotedBytes.eq_def]
    simp only [beq_iff_eq, noQuote, noBackslash, if_false, own]
    cases quotedBytes rest <;> rfl
  | escape c digits plain own =>
    have noQuote : ('\\' == '"') = false := by decide
    rw [List.cons_append, List.cons_append, quotedBytes.eq_def]
    simp only [noQuote, beq_self_eq_true, if_true, own, List.drop_left]
    cases quotedBytes rest <;> rfl

private theorem quotedBytes_flatMap (bytes : List UInt8) :
    quotedBytes (bytes.flatMap quotedByte ++ ['"']) = .ok bytes := by
  induction bytes with
  | nil =>
    rw [List.flatMap_nil, List.nil_append, quotedBytes]
    rfl
  | cons byte bytes ih =>
    rw [List.flatMap_cons, List.append_assoc, (writes_quotedByte byte).quotedBytes_append, ih]
    rfl

theorem harmless_quoted (noQuote : mark ≠ '"') (bytes : List UInt8) :
    Harmless mark (quoted bytes) := by
  have start : QuoteState.next .outside '"' = .inside := rfl
  have stop : QuoteState.next .inside '"' = .outside := rfl
  have within : FreeOf mark .inside (bytes.flatMap quotedByte) ∧
      (bytes.flatMap quotedByte).foldl QuoteState.next .inside = .inside := by
    induction bytes with
    | nil => exact ⟨trivial, rfl⟩
    | cons byte bytes ih =>
      obtain ⟨first, stays⟩ := (writes_quotedByte byte).freeOf mark
      rw [List.flatMap_cons, freeOf_append, List.foldl_append, stays]
      exact ⟨⟨first, ih.1⟩, ih.2⟩
  constructor
  · rw [quoted, FreeOf, start, freeOf_append, within.2]
    exact ⟨fun _ => noQuote.symm, within.1, nofun, trivial⟩
  · rw [quoted, List.foldl_cons, start, List.foldl_append, within.2]
    exact stop

theorem quotedList_cons_cons (blanks : List Char) (first second : List UInt8)
    (strings : List (List UInt8)) :
    quotedList blanks (first :: second :: strings) =
      quoted first ++ ',' :: (blanks ++ quotedList blanks (second :: strings)) := by
  simp [quotedList, List.intercalate_cons_cons]

private theorem harmless_quotedList (blanks : ∀ c ∈ xs, isBlank c) (noBlank : isBlank mark = false)
    (noQuote : mark ≠ '"') (noComma : mark ≠ ',') (first : List UInt8) (strings : List (List UInt8)) :
    Harmless mark (quotedList xs (first :: strings)) := by
  induction strings generalizing first with
  | nil => simpa [quotedList] using harmless_quoted noQuote first
  | cons second strings ih =>
    have comma : Harmless mark [','] := harmless_of_forall (by simp [noComma.symm])
    have behind := comma.append ((harmless_blanks blanks noBlank).append (ih second))
    rw [quotedList_cons_cons]
    exact (harmless_quoted noQuote first).append behind

/-- A list of literals is divided into the first one and those behind the commas. -/
theorem argumentPieces_quotedList (blanks : ∀ c ∈ xs, isBlank c) (first : List UInt8)
    (strings : List (List UInt8)) :
    argumentPieces .outside (quotedList xs (first :: strings)) =
      quoted first :: strings.map fun bytes => xs ++ quoted bytes := by
  have argument (bytes : List UInt8) {front : List Char} (blanks : ∀ c ∈ front, isBlank c) :
      Harmless ',' (front ++ quoted bytes) :=
    (harmless_blanks blanks (by decide)).append (harmless_quoted (by decide) bytes)
  -- all but the first stand behind blanks
  suffices general : ∀ front, (∀ c ∈ front, isBlank c) →
      argumentPieces .outside (front ++ quotedList xs (first :: strings)) =
        (front ++ quoted first) :: strings.map fun bytes => xs ++ quoted bytes from
    general [] (by simp)
  induction strings generalizing first with
  | nil =>
    intro front inFront
    simpa [quotedList] using argumentPieces_freeOf (argument first inFront).free
  | cons second strings ih =>
    intro front inFront
    rw [quotedList_cons_cons, ← List.append_assoc,
      argumentPieces_append (argument first inFront).free (argument first inFront).ends,
      ih second xs blanks, List.map_cons]

theorem trimEnd_concat_quote (cs : List Char) : trimEnd (cs ++ ['"']) = cs ++ ['"'] :=
  List.rdropWhile_concat_neg isBlank cs '"' (by decide)

theorem trim_quote (cs : List Char) : trim ('"' :: (cs ++ ['"'])) = '"' :: (cs ++ ['"']) := by
  have start : trimStart ('"' :: (cs ++ ['"'])) = '"' :: (cs ++ ['"']) :=
    List.dropWhile_cons_of_neg (by decide)
  rw [trim, start]
  exact trimEnd_concat_quote ('"' :: cs)

theorem trim_append_quote (blanks : ∀ c ∈ xs, isBlank c) (cs : List Char) :
    trim (xs ++ '"' :: (cs ++ ['"'])) = '"' :: (cs ++ ['"']) := by
  rw [trim, trimStart_append blanks, ← trim, trim_quote]

private theorem stringBytes_quoted (terminated : Bool) (bytes : List UInt8) :
    stringBytes terminated (String.ofList (quoted bytes)) =
      .ok (if terminated then bytes ++ [0] else bytes) := by
  have trimmed : trim (quoted bytes) = quoted bytes := trim_quote _
  have read : readQuoted (String.ofList (quoted bytes)) = .ok bytes := by
    rw [readQuoted, String.toList_ofList, trimmed, quoted]
    exact quotedBytes_flatMap bytes
  rw [stringBytes, read]

private theorem readUntilFault_map {α β : Type} {read : String → Except DataFault β} {text : α → String}
    {value : α → β} (each : ∀ a, read (text a) = .ok (value a)) (as : List α) :
    readUntilFault read (as.map text) = (as.map value, none) := by
  induction as with
  | nil => rfl
  | cons a as ih => simp [readUntilFault, each, ih]

private theorem splitArguments_quotedList (blanks : ∀ c ∈ xs, isBlank c) (first : List UInt8)
    (strings : List (List UInt8)) :
    splitArguments (String.ofList (quotedList xs (first :: strings))) =
      (first :: strings).map fun bytes => String.ofList (quoted bytes) := by
  have trimmed (bytes : List UInt8) : trim (xs ++ quoted bytes) = quoted bytes :=
    trim_append_quote blanks _
  have trimmed' (bytes : List UInt8) : trim (quoted bytes) = quoted bytes := trim_quote _
  have each : (argumentPieces .outside (quotedList xs (first :: strings))).map trim =
      quoted first :: strings.map quoted := by
    rw [argumentPieces_quotedList blanks, List.map_cons, trimmed', List.map_map]
    exact congrArg _ (List.map_congr_left fun bytes _ => trimmed bytes)
  rw [splitArguments, String.toList_ofList, fields, each]
  simp [quoted]

theorem exists_quotedList (oneLine : '\n' ∉ xs) (first : List UInt8) (strings : List (List UInt8)) :
    ∃ cs, quotedList xs (first :: strings) = '"' :: (cs ++ ['"']) ∧ '\n' ∉ cs := by
  have printable (byte : UInt8) : '\n' ∉ quotedByte byte := by
    have all : ∀ n : Fin 256, '\n' ∉ quotedByte (UInt8.ofNat n) := by decide +kernel
    simpa using all ⟨byte.toNat, byte.toNat_lt⟩
  induction strings generalizing first with
  | nil => exact ⟨first.flatMap quotedByte, by simp [quotedList, quoted], by simp [printable]⟩
  | cons second strings ih =>
    obtain ⟨cs, behind, plain⟩ := ih second
    refine ⟨first.flatMap quotedByte ++ '"' :: ',' :: (xs ++ '"' :: cs), ?_, ?_⟩
    · simp [quotedList_cons_cons, behind, quoted]
    · simp [printable, oneLine, plain]

/-- The directives of strings have no other use. -/
theorem stringDirective {name : String} {terminated : Bool}
    (named : DataDirective.ofName? name = some (.strings terminated)) :
    (∃ word, name.toList = '.' :: word ∧ word ≠ [] ∧ ∀ c ∈ word, isDirectiveChar c) ∧
      ∀ arguments, readDirective name arguments = .ok (.data name (String.ofList arguments)) := by
  have known : name = ".ascii" ∨ name = ".asciz" ∨ name = ".string" := by
    revert named
    fun_cases DataDirective.ofName? name <;> simp
  rcases known with rfl | rfl | rfl
  · exact ⟨⟨"ascii".toList, by decide, by decide, List.all_eq_true.1 (by decide)⟩, fun _ => rfl⟩
  · exact ⟨⟨"asciz".toList, by decide, by decide, List.all_eq_true.1 (by decide)⟩, fun _ => rfl⟩
  · exact ⟨⟨"string".toList, by decide, by decide, List.all_eq_true.1 (by decide)⟩, fun _ => rfl⟩

theorem dropWhile_blanks_quote {p : Char → Bool} (blanks : ∀ c ∈ xs, isBlank c)
    (noBlank : ∀ c, isBlank c → p c = false) (noQuote : p '"' = false) :
    (xs ++ '"' :: ys).dropWhile p = xs ++ '"' :: ys := by
  cases xs with
  | nil => rw [List.nil_append, List.dropWhile_cons_of_neg (by simp [noQuote])]
  | cons c cs =>
    have first := noBlank c (blanks c List.mem_cons_self)
    rw [List.cons_append, List.dropWhile_cons_of_neg (by simp [first])]

section

variable {front gap between back : List Char} (first : List UInt8) (strings : List (List UInt8))
  (inGap : ∀ c ∈ gap, isBlank c) (inBetween : ∀ c ∈ between, isBlank c)
  (inBack : ∀ c ∈ back, isBlank c)

include inGap inBetween inBack

/-- Neither a comment nor the blanks around them change the literals of a line. -/
theorem trimEnd_beforeComment_quotedList (oneLine : '\n' ∉ between) (comment : Option (List Char)) :
    trimEnd (beforeComment .outside (gap ++ quotedList between (first :: strings) ++ back ++
      comment.elim [] ('#' :: ·))) = gap ++ quotedList between (first :: strings) := by
  have harmless : Harmless '#' (gap ++ quotedList between (first :: strings) ++ back) := by
    refine ((harmless_blanks inGap ?_).append ?_).append (harmless_blanks inBack ?_)
    · decide
    · exact harmless_quotedList inBetween (by decide) (by decide) (by decide) first strings
    · decide
  have noText : beforeComment .outside (comment.elim [] ('#' :: ·)) = [] := by
    cases comment <;> rfl
  obtain ⟨cs, literals, -⟩ := exists_quotedList oneLine first strings
  rw [beforeComment_freeOf harmless.free, harmless.ends, noText, List.append_nil,
    trimEnd_append_blanks inBack, literals]
  simpa using trimEnd_concat_quote (gap ++ '"' :: cs)

private theorem classify_quotedList {name : String} {terminated : Bool}
    (named : DataDirective.ofName? name = some (.strings terminated))
    (inFront : ∀ c ∈ front, isBlank c) (oneLine : '\n' ∉ gap ++ between)
    (comment : Option (List Char)) :
    classify (String.ofList (front ++ name.toList ++ (gap ++ quotedList between (first :: strings) ++
      back ++ comment.elim [] ('#' :: ·)))) =
      .ok (.directive (.data name (String.ofList (quotedList between (first :: strings))))) := by
  obtain ⟨⟨word, isName, someWord, isWord⟩, read⟩ := stringDirective named
  rw [List.mem_append, not_or] at oneLine
  obtain ⟨cs, literals, plain⟩ := exists_quotedList oneLine.2 first strings
  have isDirective : ∀ c ∈ name.toList, isDirectiveChar c := by
    rw [isName, List.forall_mem_cons]
    exact ⟨by decide, isWord⟩
  have behind := trimEnd_beforeComment_quotedList first strings inGap inBetween inBack oneLine.2 comment
  generalize whole : String.ofList _ = line
  have content : lineContent line = '.' :: (word ++ (gap ++ '"' :: (cs ++ ['"']))) := by
    rw [← whole, lineContent_append inFront isDirective (by simp [isName]), behind, literals, isName,
      List.cons_append]
  have parts : directiveParts? (lineContent line) = some (name, gap ++ '"' :: (cs ++ ['"'])) := by
    refine directiveParts?_eq_some_iff.2 ⟨word, content, ?_, someWord, isWord, ?_, ?_⟩
    · rw [← isName, String.ofList_toList]
    · refine dropWhile_blanks_quote inGap (fun c blank => ?_) (by decide)
      rw [Bool.eq_false_iff]
      intro directive
      rw [(isDirectiveChar_plain directive).1] at blank
      cases blank
    · simp [oneLine.1, plain]
  have noLabel : (labelParts? (lineContent line)).isNone := by
    have start : isSymbolStart '.' = true := by decide
    have kept : (gap ++ '"' :: (cs ++ ['"'])).dropWhile isSymbolChar = gap ++ '"' :: (cs ++ ['"']) :=
      dropWhile_blanks_quote inGap (fun c blank => isSymbolChar_of_isBlank blank) (by decide)
    have quote : trimStart ('"' :: (cs ++ ['"'])) = '"' :: (cs ++ ['"']) :=
      List.dropWhile_cons_of_neg (by decide)
    rw [content, isNone_labelParts? isWord, labelParts?, if_pos start, kept, trimStart_append inGap,
      quote]
    rfl
  rw [classify_of_directiveParts? noLabel parts, read, trim_append_quote inGap, literals]
  rfl

end

/-- A line of string literals defines their bytes, whatever characters these are, and whatever comment
stands behind. -/
theorem TableBuilder.define_quotedList {name : String} {terminated : Bool}
    {front gap between back : List Char} {strings : List (List UInt8)}
    (named : DataDirective.ofName? name = some (.strings terminated))
    (blanks : ∀ c ∈ front ++ gap ++ between ++ back, isBlank c) (oneLine : '\n' ∉ gap ++ between)
    (some : strings ≠ []) (comment : Option (List Char)) (builder : TableBuilder) :
    ∃ arguments next,
      classify (String.ofList (front ++ name.toList ++ (gap ++ quotedList between strings ++ back ++
        comment.elim [] ('#' :: ·)))) = .ok (.directive (.data name arguments)) ∧
      builder.define name arguments = (next, none) ∧
      next.bytes = builder.bytes ++
        strings.flatMap fun bytes => if terminated then bytes ++ [0] else bytes := by
  obtain ⟨first, strings, rfl⟩ := List.exists_cons_of_ne_nil some
  simp only [List.append_assoc, List.forall_mem_append] at blanks
  obtain ⟨inFront, inGap, inBetween, inBack⟩ := blanks
  have read := readUntilFault_map (stringBytes_quoted terminated) (first :: strings)
  refine ⟨_, _, classify_quotedList first strings inGap inBetween inBack named inFront oneLine comment,
    ?_, bytes_appendBytes builder _⟩
  rw [define, named]
  dsimp only
  rw [defineAs, splitArguments_quotedList inBetween, read]
  rfl

/-- Two strings with marks, escapes and digits behind escapes, in front of a comment with a quotation
mark. -/
theorem TableBuilder.define_quotedList_marks :
    ∃ arguments next,
      classify "\t.asciz \"#\\\",:\\\\\",\"\\0001\\377\" # \"" =
        .ok (.directive (.data ".asciz" arguments)) ∧
      define ⟨"T", 1, #[], [7]⟩ ".asciz" arguments = (next, none) ∧
      next.bytes = [7, 35, 34, 44, 58, 92, 0, 0, 49, 255, 0] := by
  have line : String.ofList (['\t'] ++ ".asciz".toList ++ ([' '] ++
      quotedList [] [[35, 34, 44, 58, 92], [0, 49, 255]] ++ [' '] ++
      (some [' ', '"']).elim [] ('#' :: ·))) = "\t.asciz \"#\\\",:\\\\\",\"\\0001\\377\" # \"" := by
    decide +kernel
  have named : DataDirective.ofName? ".asciz" = some (.strings true) := rfl
  have blanks : ∀ c ∈ ['\t'] ++ [' '] ++ [] ++ [' '], isBlank c := by decide
  have defined := define_quotedList named blanks (by decide) (List.cons_ne_nil [35, 34, 44, 58, 92]
    [[0, 49, 255]]) (some [' ', '"']) ⟨"T", 1, #[], [7]⟩
  rwa [line] at defined

end AsmTranslit
