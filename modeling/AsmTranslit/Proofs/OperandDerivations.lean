import AsmTranslit.Proofs.OperandGrammar

/-!
# Derivations of operands

How the tokens of an operand derive from its grammar, as trees.  A derivation is data and not a proof
that a list is spelled, so two derivations of one list could be told apart; there are never two.  The
reader accepts exactly the lists with a derivation, and gives the operand that the derivation denotes.
-/

namespace AsmTranslit

/-- A derivation of a term. -/
inductive TermTree
  | register (register : Register)
  | number (value : UInt64)
  | symbol (name : String)
  | registerFirst (register : Register) (factor : UInt64)
  | factorFirst (factor : UInt64) (register : Register)
  deriving DecidableEq, Repr

namespace TermTree

def tokens : TermTree → List Token
  | register r => [.register r]
  | number n => [.number n]
  | symbol name => [.ident name]
  | registerFirst r n => [.register r, .asterisk, .number n]
  | factorFirst n r => [.number n, .asterisk, .register r]

def term : TermTree → Term
  | register r => .register r
  | number n => .number n
  | symbol name => .symbol name
  | registerFirst r n => .scaled r n
  | factorFirst n r => .scaled r n

end TermTree

/-- A term with the sign in front of it. -/
structure SignedTree where
  negative : Bool
  term : TermTree
  deriving DecidableEq, Repr

namespace SignedTree

def sign (tree : SignedTree) : Token :=
  if tree.negative then .minus else .plus

def tokens (tree : SignedTree) : List Token :=
  tree.sign :: tree.term.tokens

def signedTerm (tree : SignedTree) : SignedTerm :=
  ⟨tree.negative, tree.term.term⟩

end SignedTree

/-- A derivation of a sum: a term, perhaps with a minus sign in front, and signed terms. -/
structure SumTree where
  negated : Bool
  first : TermTree
  rest : List SignedTree
  deriving DecidableEq, Repr

namespace SumTree

def tokens (tree : SumTree) : List Token :=
  (if tree.negated then [.minus] else []) ++ (tree.first.tokens ++ tree.rest.flatMap SignedTree.tokens)

def terms (tree : SumTree) : List SignedTerm :=
  ⟨tree.negated, tree.first.term⟩ :: tree.rest.map SignedTree.signedTerm

end SumTree

/-- A derivation of a memory operand: perhaps a size, a segment and a sum, and a sum between
brackets. -/
structure MemoryTree where
  size : Option Size
  segment : Option (Fin 6)
  outer : Option SumTree
  inner : SumTree
  deriving DecidableEq, Repr

namespace MemoryTree

def outerTokens (tree : MemoryTree) : List Token :=
  tree.outer.elim [] SumTree.tokens

def outerTerms (tree : MemoryTree) : List SignedTerm :=
  tree.outer.elim [] SumTree.terms

def tokens (tree : MemoryTree) : List Token :=
  sizeTokens tree.size ++ (segmentTokens tree.segment ++
    (tree.outerTokens ++ .leftBracket :: (tree.inner.tokens ++ [.rightBracket])))

/-- The written form that the derivation stands for. -/
def form (tree : MemoryTree) : MemoryForm :=
  ⟨tree.size, tree.segment, tree.outerTerms, tree.inner.terms⟩

end MemoryTree

/-- A derivation of an operand without brackets. -/
inductive PlainTree
  | register (register : Register)
  | number (negated : Bool) (value : UInt64)
  | symbol (name : String)
  /-- A symbol with a number that is added or subtracted. -/
  | displaced (name : String) (negative : Bool) (value : UInt64)
  deriving DecidableEq, Repr

namespace PlainTree

def tokens : PlainTree → List Token
  | register r => [.register r]
  | number negated n => (if negated then [.minus] else []) ++ [.number n]
  | symbol name => [.ident name]
  | displaced name negative n => [.ident name, if negative then .minus else .plus, .number n]

def operand : PlainTree → Operand
  | register r => .register r
  | number negated n => .immediate (signedWord negated n)
  | symbol name => .symbol name 0
  | displaced name negative n => .symbol name (signedWord negative n)

end PlainTree

variable {ts us : List Token} {text : String} {operand : Operand}

theorem TermTree.spelling (tree : TermTree) : tree.term.Spelling tree.tokens := by
  cases tree with
  | register r => exact .register r
  | number n => exact .number n
  | symbol name => exact .symbol name
  | registerFirst r n => exact .registerFirst r n
  | factorFirst n r => exact .factorFirst r n

theorem Term.Spelling.exists_tree {t : Term} (h : t.Spelling ts) :
    ∃ tree : TermTree, tree.term = t ∧ tree.tokens = ts := by
  cases h with
  | register r => exact ⟨.register r, rfl, rfl⟩
  | number n => exact ⟨.number n, rfl, rfl⟩
  | symbol name => exact ⟨.symbol name, rfl, rfl⟩
  | registerFirst r n => exact ⟨.registerFirst r n, rfl, rfl⟩
  | factorFirst r n => exact ⟨.factorFirst n r, rfl, rfl⟩

private theorem SignedTree.subtracts?_sign (tree : SignedTree) :
    tree.sign.subtracts? = some tree.negative := by
  cases h : tree.negative <;> simp [sign, h, Token.subtracts?]

theorem signedSpelling_flatMap (trees : List SignedTree) :
    SignedSpelling (trees.map SignedTree.signedTerm) (trees.flatMap SignedTree.tokens) := by
  induction trees with
  | nil => exact .nil
  | cons tree trees ih => exact .cons tree.subtracts?_sign tree.term.spelling ih

/-- A token that is a sign is the one that its meaning is written with. -/
theorem eq_of_subtracts? {sign : Token} {negative : Bool} (h : sign.subtracts? = some negative) :
    (if negative then Token.minus else .plus) = sign := by
  cases sign <;> simp [Token.subtracts?] at h <;> simp [← h]

theorem SignedSpelling.exists_trees {terms : List SignedTerm} (h : SignedSpelling terms ts) :
    ∃ trees : List SignedTree, trees.map SignedTree.signedTerm = terms ∧
      trees.flatMap SignedTree.tokens = ts := by
  induction h with
  | nil => exact ⟨[], rfl, rfl⟩
  | @cons sign negative t terms ts us subtracts head tail ih =>
    obtain ⟨tree, rfl, rfl⟩ := head.exists_tree
    obtain ⟨trees, rfl, rfl⟩ := ih
    refine ⟨⟨negative, tree⟩ :: trees, rfl, ?_⟩
    rw [List.flatMap_cons, SignedTree.tokens, SignedTree.sign, eq_of_subtracts? subtracts]
    rfl

theorem SumTree.spelling (tree : SumTree) : SumSpelling tree.terms tree.tokens := by
  obtain ⟨negated, first, rest⟩ := tree
  cases negated with
  | false => simpa [tokens, terms] using SumSpelling.bare first.spelling (signedSpelling_flatMap rest)
  | true => simpa [tokens, terms] using SumSpelling.negated first.spelling (signedSpelling_flatMap rest)

theorem SumSpelling.exists_tree {terms : List SignedTerm} (h : SumSpelling terms ts) :
    ∃ tree : SumTree, tree.terms = terms ∧ tree.tokens = ts := by
  cases h with
  | bare head tail =>
    obtain ⟨first, rfl, rfl⟩ := head.exists_tree
    obtain ⟨rest, rfl, rfl⟩ := tail.exists_trees
    exact ⟨⟨false, first, rest⟩, rfl, rfl⟩
  | negated head tail =>
    obtain ⟨first, rfl, rfl⟩ := head.exists_tree
    obtain ⟨rest, rfl, rfl⟩ := tail.exists_trees
    exact ⟨⟨true, first, rest⟩, rfl, rfl⟩

theorem MemoryTree.spelling (tree : MemoryTree) : tree.form.Spelling tree.tokens := by
  obtain ⟨size, segment, outer, inner⟩ := tree
  apply MemoryForm.Spelling.intro _ inner.spelling
  cases outer with
  | none => exact .absent
  | some outer => exact .present outer.spelling

theorem MemoryForm.Spelling.exists_tree {form : MemoryForm} (h : form.Spelling ts) :
    ∃ tree : MemoryTree, tree.form = form ∧ tree.tokens = ts := by
  cases h with
  | @intro size segment outer inner ts us outside within =>
    obtain ⟨inside, rfl, rfl⟩ := within.exists_tree
    cases outside with
    | absent => exact ⟨⟨size, segment, none, inside⟩, rfl, rfl⟩
    | present sum =>
      obtain ⟨before, rfl, rfl⟩ := sum.exists_tree
      exact ⟨⟨size, segment, some before, inside⟩, rfl, rfl⟩

/-- Derivations of one term differ in their first tokens. -/
theorem TermTree.eq_of_append {first second : TermTree} (same : first.term = second.term)
    (h : first.tokens ++ ts = second.tokens ++ us) : first = second ∧ ts = us := by
  cases first <;> cases second <;> simp_all [term, tokens]

theorem SignedTree.eq_of_append {first second : List SignedTree}
    (same : first.map signedTerm = second.map signedTerm)
    (h : first.flatMap tokens ++ ts = second.flatMap tokens ++ us) : first = second ∧ ts = us := by
  induction first generalizing second with
  | nil =>
    obtain rfl : second = [] := by simpa using same.symm
    exact ⟨rfl, h⟩
  | cons tree trees ih =>
    obtain ⟨other, others, rfl⟩ : ∃ other others, second = other :: others := by
      cases second with
      | nil => simp at same
      | cons other others => exact ⟨other, others, rfl⟩
    obtain ⟨own, rest⟩ := List.cons.inj same
    obtain ⟨sign, term⟩ := SignedTerm.mk.inj own
    simp only [List.flatMap_cons, tokens, List.cons_append, List.append_assoc, List.cons.injEq] at h
    obtain ⟨sameTerm, after⟩ := TermTree.eq_of_append term h.2
    obtain ⟨rfl, rfl⟩ := ih rest after
    obtain rfl : tree = other := by
      cases tree
      cases other
      simp_all
    exact ⟨rfl, rfl⟩

theorem SumTree.eq_of_append {first second : SumTree} (same : first.terms = second.terms)
    (h : first.tokens ++ ts = second.tokens ++ us) : first = second ∧ ts = us := by
  obtain ⟨negated, head, tail⟩ := first
  obtain ⟨negated', head', tail'⟩ := second
  obtain ⟨own, rest⟩ := List.cons.inj same
  obtain ⟨rfl, term⟩ : negated = negated' ∧ head.term = head'.term := SignedTerm.mk.inj own
  simp only [tokens, List.append_assoc, List.append_cancel_left_eq] at h
  obtain ⟨rfl, after⟩ := TermTree.eq_of_append term h
  obtain ⟨rfl, rfl⟩ := SignedTree.eq_of_append rest after
  exact ⟨rfl, rfl⟩

/-- The grammar of memory operands is unambiguous. -/
theorem MemoryTree.tokens_injective : Function.Injective MemoryTree.tokens := by
  intro first second h
  have spelled := second.spelling
  rw [← h] at spelled
  have same := first.spelling.unique spelled
  obtain ⟨size, segment, outer, inner⟩ := first
  obtain ⟨size', segment', outer', inner'⟩ := second
  obtain ⟨rfl, rfl, outside, within⟩ := MemoryForm.mk.inj same
  simp only [tokens, List.append_cancel_left_eq] at h
  -- a sum has a term, so the derivations agree on whether there is one before the brackets
  cases outer with
  | none =>
    cases outer' with
    | some sum => simp [outerTerms, SumTree.terms] at outside
    | none =>
      obtain ⟨rfl, -⟩ := SumTree.eq_of_append within (List.cons.inj h).2
      rfl
  | some sum =>
    cases outer' with
    | none => simp [outerTerms, SumTree.terms] at outside
    | some sum' =>
      obtain ⟨rfl, after⟩ := SumTree.eq_of_append outside h
      obtain ⟨rfl, -⟩ := SumTree.eq_of_append within (List.cons.inj after).2
      rfl

theorem PlainTree.tokens_injective : Function.Injective PlainTree.tokens := by
  intro first second h
  cases first <;> cases second <;> grind [tokens]

theorem readMemory_eq_ok_iff_exists_tree {form : MemoryForm} :
    readMemory ts = .ok form ↔ ∃ tree : MemoryTree, tree.tokens = ts ∧ tree.form = form := by
  rw [readMemory_eq_ok_iff]
  constructor
  · intro spelled
    obtain ⟨tree, same, yields⟩ := spelled.exists_tree
    exact ⟨tree, yields, same⟩
  · rintro ⟨tree, rfl, rfl⟩
    exact tree.spelling

theorem readEnd_eq_ok_iff {other : Operand} :
    readEnd other ts = .ok operand ↔ ts = [] ∧ other = operand := by
  cases ts with
  | nil => simp [readEnd]
  | cons t ts => simp [readEnd]

theorem readPlain_eq_ok_iff :
    readPlain ts = .ok operand ↔ ∃ tree : PlainTree, tree.tokens = ts ∧ tree.operand = operand := by
  constructor
  · fun_cases readPlain ts with
    | case1 r rest =>
      intro h
      obtain ⟨rfl, rfl⟩ := readEnd_eq_ok_iff.1 h
      exact ⟨.register r, rfl, rfl⟩
    | case2 n rest =>
      intro h
      obtain ⟨rfl, rfl⟩ := readEnd_eq_ok_iff.1 h
      exact ⟨.number true n, rfl, rfl⟩
    | case4 n rest =>
      intro h
      obtain ⟨rfl, rfl⟩ := readEnd_eq_ok_iff.1 h
      exact ⟨.number false n, rfl, rfl⟩
    | case5 name =>
      intro h
      exact ⟨.symbol name, rfl, Except.ok.inj h⟩
    | case6 name sign negative n rest subtracts =>
      intro h
      obtain ⟨rfl, rfl⟩ := readEnd_eq_ok_iff.1 h
      refine ⟨.displaced name negative n, ?_, rfl⟩
      rw [PlainTree.tokens, eq_of_subtracts? subtracts]
    | _ => simp
  · rintro ⟨tree, rfl, rfl⟩
    cases tree with
    | register r => rfl
    | number negated n => cases negated <;> rfl
    | symbol name => rfl
    | displaced name negative n => cases negative <;> rfl

theorem findSome?_errorLexeme?_eq_none_iff :
    ts.findSome? Token.errorLexeme? = none ↔ ∀ lexeme, .error lexeme ∉ ts := by
  rw [List.findSome?_eq_none_iff]
  constructor
  · intro h lexeme member
    simpa [Token.errorLexeme?] using h _ member
  · intro h t member
    cases t with
    | error lexeme => exact absurd member (h lexeme)
    | _ => rfl

theorem readTokens_eq_ok_iff : readTokens ts = .ok operand ↔
    (∀ lexeme, .error lexeme ∉ ts) ∧ .leftBrace ∉ ts ∧
      ((.leftBracket ∈ ts ∧ ∃ form m, readMemory ts = .ok form ∧ form.reference = .ok m ∧
          operand = .memory m) ∨
        (.leftBracket ∉ ts ∧ readPlain ts = .ok operand)) := by
  rw [← findSome?_errorLexeme?_eq_none_iff, readTokens]
  cases ts.findSome? Token.errorLexeme? with
  | some lexeme => simp
  | none =>
    by_cases braces : .leftBrace ∈ ts
    · simp [braces]
    · by_cases brackets : .leftBracket ∈ ts
      · cases read : readMemory ts with
        | error fault => simp [braces, brackets]
        | ok form =>
          cases denotes : form.reference with
          | error fault => simp [braces, brackets, denotes]
          | ok m => simp [braces, brackets, denotes, eq_comm]
      · cases read : readPlain ts with
        | error fault => simp [braces, brackets]
        | ok other => simp [braces, brackets]

/-- Which texts are operands.  Their tokens hold neither an error nor a left brace.  With a left
bracket they have a derivation of a memory operand whose terms make up an address, and without one a
derivation of a register, of a number or of a symbol; the operand is what the derivation denotes.  No
list of tokens has two derivations. -/
theorem readOperand_eq_ok_iff :
    (∀ text operand, readOperand text = .ok operand ↔
      (∀ lexeme, .error lexeme ∉ tokens text) ∧ .leftBrace ∉ tokens text ∧
        ((.leftBracket ∈ tokens text ∧ ∃ (tree : MemoryTree) (m : MemoryOperand),
            tree.tokens = tokens text ∧ tree.form.reference = .ok m ∧ operand = .memory m) ∨
          (.leftBracket ∉ tokens text ∧ ∃ tree : PlainTree,
            tree.tokens = tokens text ∧ tree.operand = operand))) ∧
    Function.Injective MemoryTree.tokens ∧ Function.Injective PlainTree.tokens := by
  refine ⟨?_, MemoryTree.tokens_injective, PlainTree.tokens_injective⟩
  intro text operand
  have memory : (∃ form m, readMemory (tokens text) = .ok form ∧ form.reference = .ok m ∧
        operand = .memory m) ↔
      ∃ (tree : MemoryTree) (m : MemoryOperand), tree.tokens = tokens text ∧
        tree.form.reference = .ok m ∧ operand = .memory m := by
    constructor
    · rintro ⟨form, m, read, denotes, same⟩
      obtain ⟨tree, yields, rfl⟩ := readMemory_eq_ok_iff_exists_tree.1 read
      exact ⟨tree, m, yields, denotes, same⟩
    · rintro ⟨tree, m, yields, denotes, same⟩
      exact ⟨tree.form, m, readMemory_eq_ok_iff_exists_tree.2 ⟨tree, yields, rfl⟩, denotes, same⟩
  rw [readOperand, readTokens_eq_ok_iff, memory, readPlain_eq_ok_iff]

end AsmTranslit
