import AsmTranslit.Proofs.EffectiveAddress
import AsmTranslit.Proofs.WholeSymbols
import Mathlib.Data.List.Chain

/-!
# Symbol tokens

The symbol of a memory operand stands by itself in the operand's text.  An identifier is a longest run
of symbol characters, so no symbol character follows it; and one stands in front of it only if it
belongs to a numeral, but no memory operand has a numeral directly in front of a symbol.
-/

namespace AsmTranslit

theorem isBlank_of_isSeparator {c : Char} (h : isSeparator c) : isBlank c := by
  rw [isSeparator, Bool.or_eq_true, beq_iff_eq, beq_iff_eq] at h
  rcases h with rfl | rfl <;> decide

theorem isBlank_of_scanFrom_eq_nil {start : Nat} {cs : List Char} (h : scanFrom start cs = []) :
    ∀ c ∈ cs, isBlank c := by
  fun_induction scanFrom start cs with
  | case1 => simp
  | case2 start c cs separates ih =>
    intro d member
    rcases List.mem_cons.1 member with rfl | later
    · exact isBlank_of_isSeparator separates
    · exact ih h d later
  | case3 => cases h

/-- A token that an identifier may follow with nothing between their characters. -/
def Token.touches : Token → Bool
  | number _ => true
  | error _ => true
  | _ => false

theorem Token.ofLexeme_eq_ident {c : Char} {tail : List Char} {name : String}
    (h : Token.ofLexeme c tail = .ident name) :
    isSymbolStart c ∧ name.toList = c :: tail := by
  rw [Token.ofLexeme] at h
  split at h
  case isTrue start =>
    rw [Token.ofWord] at h
    split at h
    case h_1 => simp at h
    case h_2 =>
      split at h
      case h_1 => simp at h
      case h_2 =>
        split at h
        case isTrue => simp at h
        case isFalse =>
          obtain rfl := Token.ident.inj h
          exact ⟨start, String.toList_ofList⟩
  case isFalse =>
    split at h
    case isTrue =>
      simp only [Token.ofNumeral] at h
      split at h <;> simp at h
    case isFalse =>
      rw [Token.ofMark.eq_def] at h
      split at h <;> simp at h

theorem drop_length_takeWhile {α : Type} (p : α → Bool) (xs : List α) :
    xs.drop (xs.takeWhile p).length = xs.dropWhile p := by
  have split := List.takeWhile_append_dropWhile (p := p) (l := xs)
  calc xs.drop (xs.takeWhile p).length
      = (xs.takeWhile p ++ xs.dropWhile p).drop (xs.takeWhile p).length := by rw [split]
    _ = xs.dropWhile p := List.drop_left

theorem joins_behind_word {c : Char} (start : isSymbolStart c) (cs : List Char) :
    joins (cs.drop (lexemeTail c cs).length).head? = false := by
  have stops := List.head?_dropWhile_not isSymbolChar cs
  rw [lexemeTail, if_pos start, drop_length_takeWhile]
  cases first : (cs.dropWhile isSymbolChar).head? with
  | none => rfl
  | some d => simpa [joins, first] using stops

/-- Behind a lexeme no symbol goes on, unless its token may touch an identifier. -/
theorem apart_lexeme (c : Char) (cs : List Char) :
    joins (c :: lexemeTail c cs).getLast? = false ∨
      joins (cs.drop (lexemeTail c cs).length).head? = false ∨
      (Token.ofLexeme c (lexemeTail c cs)).touches := by
  by_cases start : isSymbolStart c
  · exact .inr (.inl (joins_behind_word start cs))
  · rw [Token.ofLexeme, lexemeTail, if_neg start, if_neg start]
    split
    case isTrue =>
      refine .inr (.inr ?_)
      simp only [Token.ofNumeral]
      split <;> rfl
    case isFalse =>
      rw [Token.ofMark.eq_def]
      split
      case h_9 => exact .inr (.inr rfl)
      all_goals exact .inl (by decide)

/-- An identifier of a text stands by itself if no token that may touch it is directly in front.
`before` is the character in front of the text, and `previous` the token. -/
theorem exists_standing_of_scanFrom {start : Nat} {cs : List Char} {before : Option Char}
    {previous : Option Token} {front back : List Token} {name : String}
    (apart : joins before = false ∨ joins cs.head? = false ∨ previous.any Token.touches)
    (split : (scanFrom start cs).map PlacedToken.token = front ++ .ident name :: back)
    (free : ∀ t, (previous.toList ++ front).getLast? = some t → t.touches = false) :
    ∃ left right, cs = left ++ name.toList ++ right ∧
      joins (left.getLast?.or before) = false ∧ joins right.head? = false := by
  fun_induction scanFrom start cs generalizing before previous front with
  | case1 => simp at split
  | case2 start c cs separates ih =>
    have blank : joins (some c) = false := isSymbolChar_of_isBlank (isBlank_of_isSeparator separates)
    obtain ⟨left, right, rfl, unjoined, after⟩ := ih (.inl blank) split free
    refine ⟨c :: left, right, rfl, ?_, after⟩
    rw [List.getLast?_cons, Option.some_or]
    cases last : left.getLast? <;> simpa [last] using unjoined
  | case3 start c cs separates tail =>
    rename_i stop ih
    rw [List.map_cons] at split
    have tailInText := lexemeTail_append_drop c cs
    cases front with
    | nil =>
      obtain ⟨isName, -⟩ := List.cons.inj split
      obtain ⟨begins, word⟩ := Token.ofLexeme_eq_ident isName
      refine ⟨[], cs.drop (lexemeTail c cs).length, ?_, ?_, ?_⟩
      · rw [List.nil_append, word, List.cons_append, tailInText]
      · rcases apart with apart | apart | touching
        · simpa using apart
        · have symbol := isSymbolChar_of_isSymbolStart begins
          simp [joins, symbol] at apart
        · obtain ⟨t, same, touches⟩ := (Option.any_eq_true _ _).1 touching
          have none := free t (by simp [same])
          simp [none] at touches
      · exact joins_behind_word begins cs
    | cons t others =>
      obtain ⟨rfl, rest⟩ := List.cons.inj split
      -- behind the lexeme its token takes the place of `previous`
      have later : ∀ t, ((some (Token.ofLexeme c tail)).toList ++ others).getLast? = some t →
          t.touches = false := by
        intro t last
        rw [Option.toList_some, List.singleton_append] at last
        apply free t
        rw [List.getLast?_append, last, Option.some_or]
      obtain ⟨left, right, same, unjoined, after⟩ := ih (apart_lexeme c cs) rest later
      refine ⟨c :: lexemeTail c cs ++ left, right, ?_, ?_, after⟩
      · rw [List.cons_append, List.cons_append, List.cons_append, List.append_assoc,
          List.append_assoc, ← List.append_assoc left, ← same, tailInText]
      · rw [List.getLast?_append, Option.or_assoc, List.getLast?_cons, Option.some_or,
          ← List.getLast?_cons]
        exact unjoined

theorem isSymbolChar_of_ident {start : Nat} {cs : List Char} {name : String}
    (h : .ident name ∈ (scanFrom start cs).map PlacedToken.token) :
    name.toList ≠ [] ∧ ∀ c ∈ name.toList, isSymbolChar c := by
  fun_induction scanFrom start cs with
  | case1 => simp at h
  | case2 start c cs separates ih => exact ih h
  | case3 start c cs separates tail =>
    rename_i stop ih
    rcases List.mem_cons.1 h with isFirst | later
    · obtain ⟨begins, word⟩ := Token.ofLexeme_eq_ident isFirst.symm
      have run : tail = cs.takeWhile isSymbolChar := if_pos begins
      refine ⟨by simp [word], ?_⟩
      rw [word, run]
      intro d member
      rcases List.mem_cons.1 member with rfl | inRun
      · exact isSymbolChar_of_isSymbolStart begins
      · exact List.all_eq_true.1 List.all_takeWhile d inRun
    · exact ih later

/-- Whether a token may stand in front of another: one that touches does not precede an identifier. -/
def Token.Precedes (first second : Token) : Prop :=
  ∀ name, second = .ident name → first.touches = false

variable {t : Term} {terms : List SignedTerm} {ts us : List Token} {form : MemoryForm}

theorem isChain_cons_of_free {first : Token} (free : first.touches = false)
    (chain : ts.IsChain Token.Precedes) : (first :: ts).IsChain Token.Precedes :=
  chain.cons fun _ _ _ _ => free

theorem isChain_append_of_noIdent (chain : ts.IsChain Token.Precedes)
    (later : us.IsChain Token.Precedes) (noIdent : ∀ name, us.head? ≠ some (.ident name)) :
    (ts ++ us).IsChain Token.Precedes := by
  apply chain.append later
  rintro first - second isFirst name rfl
  exact absurd isFirst (noIdent name)

theorem Term.Spelling.isChain (h : t.Spelling ts) : ts.IsChain Token.Precedes := by
  cases h <;> simp [Token.Precedes]

private theorem touches_of_subtracts? {sign : Token} {negative : Bool}
    (subtracts : sign.subtracts? = some negative) : sign.touches = false := by
  cases sign <;> first | rfl | simp [Token.subtracts?] at subtracts

theorem SignedSpelling.head?_ne_ident (h : SignedSpelling terms us) (name : String) :
    us.head? ≠ some (.ident name) := by
  cases h with
  | nil => simp
  | cons subtracts head tail =>
    intro isName
    obtain rfl := Option.some.inj isName
    simp [Token.subtracts?] at subtracts

theorem SignedSpelling.isChain (h : SignedSpelling terms ts) : ts.IsChain Token.Precedes := by
  induction h with
  | nil => exact .nil
  | cons subtracts head tail ih =>
    have signless := isChain_append_of_noIdent head.isChain ih tail.head?_ne_ident
    exact isChain_cons_of_free (touches_of_subtracts? subtracts) signless

theorem SumSpelling.isChain (h : SumSpelling terms ts) : ts.IsChain Token.Precedes := by
  cases h with
  | bare head tail => exact isChain_append_of_noIdent head.isChain tail.isChain tail.head?_ne_ident
  | negated head tail =>
    have signless := isChain_append_of_noIdent head.isChain tail.isChain tail.head?_ne_ident
    exact isChain_cons_of_free rfl signless

theorem OptionalSum.isChain (h : OptionalSum terms ts) : ts.IsChain Token.Precedes := by
  cases h with
  | absent => exact .nil
  | present sum => exact sum.isChain

/-- In the spelling of a memory operand no number is directly in front of a symbol. -/
theorem MemoryForm.Spelling.isChain (h : form.Spelling ts) : ts.IsChain Token.Precedes := by
  cases h with
  | @intro size segment outer inner ts us outside within =>
    have closed : (us ++ [Token.rightBracket]).IsChain Token.Precedes :=
      isChain_append_of_noIdent within.isChain (.singleton _) (by simp)
    have brackets : (Token.leftBracket :: (us ++ [.rightBracket])).IsChain Token.Precedes :=
      isChain_cons_of_free rfl closed
    have sums := isChain_append_of_noIdent outside.isChain brackets (by simp)
    have address : (segmentTokens segment ++
        (ts ++ Token.leftBracket :: (us ++ [.rightBracket]))).IsChain Token.Precedes := by
      cases segment with
      | none => exact sums
      | some n => exact .cons_cons (fun _ _ => rfl) (isChain_cons_of_free rfl sums)
    cases size with
    | none => exact address
    | some s => exact .cons_cons (fun _ _ => rfl) (isChain_cons_of_free rfl address)

theorem Term.Spelling.ident_mem {name : String} (h : t.Spelling ts)
    (named : t.symbol? = some name) : .ident name ∈ ts := by
  cases h <;> simp_all [Term.symbol?]

theorem SignedSpelling.ident_mem {name : String} (h : SignedSpelling terms ts)
    (named : name ∈ terms.filterMap (·.term.symbol?)) : .ident name ∈ ts := by
  induction h with
  | nil => simp at named
  | cons subtracts head tail ih =>
    rw [List.mem_filterMap] at named
    obtain ⟨signed, member, named⟩ := named
    rcases List.mem_cons.1 member with rfl | later
    · exact List.mem_cons_of_mem _ (List.mem_append_left _ (head.ident_mem named))
    · have inTail := ih (List.mem_filterMap.2 ⟨signed, later, named⟩)
      exact List.mem_cons_of_mem _ (List.mem_append_right _ inTail)

theorem SumSpelling.ident_mem {name : String} (h : SumSpelling terms ts)
    (named : name ∈ terms.filterMap (·.term.symbol?)) : .ident name ∈ ts := by
  cases h with
  | bare head tail =>
    have plus : Token.plus.subtracts? = some false := rfl
    have signed := (SignedSpelling.cons plus head tail).ident_mem named
    simpa using signed
  | negated head tail =>
    have minus : Token.minus.subtracts? = some true := rfl
    exact (SignedSpelling.cons minus head tail).ident_mem named

theorem MemoryForm.Spelling.ident_mem {name : String} (h : form.Spelling ts)
    (named : name ∈ form.labels) : .ident name ∈ ts := by
  cases h with
  | @intro size segment outer inner ts us outside within =>
    rw [MemoryForm.labels, MemoryForm.terms, List.filterMap_append, List.mem_append] at named
    simp only [List.mem_append, List.mem_cons]
    rcases named with named | named
    · cases outside with
      | absent => simp at named
      | present sum => exact .inr (.inr (.inl (sum.ident_mem named)))
    · exact .inr (.inr (.inr (.inr (.inl (within.ident_mem named)))))

/-- The symbol that a memory operand names stands by itself in the operand's text. -/
theorem standsIn_of_readOperand {operand name : String} {m : MemoryOperand}
    (read : readOperand operand = .ok (.memory m)) (symbol : m.symbol = some name) :
    StandsIn name.toList operand.toList ∧ name.toList ≠ [] ∧ ∀ c ∈ name.toList, isSymbolChar c := by
  obtain ⟨form, spelled, denotes⟩ := readTokens_eq_memory read
  obtain ⟨follows, -⟩ := form.follows_of_reference denotes
  have named : name ∈ form.labels := by
    have labels : form.labels = m.symbol.toList := follows.labels
    simp [labels, symbol]
  have member := spelled.ident_mem named
  obtain ⟨front, back, split⟩ := List.append_of_mem member
  have chain := spelled.isChain
  rw [split, List.isChain_append] at chain
  have atStart : joins none = false ∨ joins operand.toList.head? = false ∨
      (none : Option Token).any Token.touches := .inl rfl
  have free : ∀ t, ((none : Option Token).toList ++ front).getLast? = some t → t.touches = false :=
    fun t last => chain.2.2 t last (.ident name) rfl name rfl
  obtain ⟨left, right, same, before, after⟩ := exists_standing_of_scanFrom atStart split free
  refine ⟨⟨left, right, same, ?_, after⟩, isSymbolChar_of_ident member⟩
  rwa [Option.or_none] at before

/-- An instruction mentions the symbol of each of its memory operands. -/
theorem mentions_of_readOperand {text operand name : String} {m : MemoryOperand}
    (member : operand ∈ (Statement.ofText text).operands)
    (read : readOperand operand = .ok (.memory m)) (symbol : m.symbol = some name) :
    mentions text name := by
  obtain ⟨stands, some, characters⟩ := standsIn_of_readOperand read symbol
  exact mentions_of_standsIn some characters (stands.trans (standsIn_statement member))

end AsmTranslit
