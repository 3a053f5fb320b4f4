import AsmTranslit.Proofs.OperandDerivations
import AsmTranslit.Proofs.TokenTexts

/-!
# Texts of operands

Operands as texts, and reading them back.  A derivation is written with blanks around its signs and none
around its factors, and the tokens of that text are those of the derivation.  An operand is written by the
derivation that has its parts in order, base, index, symbol and displacement, and leaves out what is
absent; reading that text gives the operand back.
-/

namespace AsmTranslit

-- A statement on the characters of a text is decided along the text, never over every character.
attribute [local instance (high)] List.decidableBAll

def leadingSign (negative : Bool) : String :=
  if negative then "-" else ""

def joiningSign (negative : Bool) : String :=
  if negative then " - " else " + "

def TermTree.text : TermTree → String
  | register r => r.intelName
  | number n => toString n.toNat
  | symbol name => name
  | registerFirst r n => r.intelName ++ "*" ++ toString n.toNat
  | factorFirst n r => toString n.toNat ++ "*" ++ r.intelName

def SignedTree.text (tree : SignedTree) : String :=
  joiningSign tree.negative ++ tree.term.text

def SumTree.text (tree : SumTree) : String :=
  leadingSign tree.negated ++ (tree.first.text ++ String.join (tree.rest.map SignedTree.text))

def sizeText : Option Size → String
  | none => ""
  | some s => s.keyword ++ " ptr "

def segmentText : Option (Fin 6) → String
  | none => ""
  | some n => (Register.segment n).intelName ++ ":"

def MemoryTree.text (tree : MemoryTree) : String :=
  sizeText tree.size ++ (segmentText tree.segment ++
    (tree.outer.elim "" SumTree.text ++ ("[" ++ (tree.inner.text ++ "]"))))

def PlainTree.text : PlainTree → String
  | register r => r.intelName
  | number negated n => leadingSign negated ++ toString n.toNat
  | symbol name => name
  | displaced name negative n => name ++ (joiningSign negative ++ toString n.toNat)

/-- The symbols of tokens have names that are scanned as symbols. -/
def SymbolNames (ts : List Token) : Prop :=
  ∀ name, .ident name ∈ ts → IsSymbolName name

variable {ts us : List Token}

theorem symbolNames_append : SymbolNames (ts ++ us) ↔ SymbolNames ts ∧ SymbolNames us := by
  simp only [SymbolNames, List.mem_append, or_imp, forall_and]

theorem SymbolNames.tail {t : Token} (h : SymbolNames (t :: ts)) : SymbolNames ts :=
  fun name member => h name (List.mem_cons_of_mem t member)

theorem closedAs_leadingSign (negative : Bool) :
    ClosedAs (leadingSign negative) (if negative then [.minus] else []) := by
  cases negative with
  | false => exact closedAs_marks "" (by decide)
  | true => exact closedAs_marks "-" (by decide)

theorem closedAs_joiningSign (negative : Bool) :
    ClosedAs (joiningSign negative) [if negative then .minus else .plus] := by
  cases negative with
  | false => exact closedAs_marks " + " (by decide)
  | true => exact closedAs_marks " - " (by decide)

theorem joins_joiningSign (negative : Bool) (rest : String) :
    joins (joiningSign negative ++ rest).toList.head? = false := by
  rw [String.toList_append]
  cases negative <;> rfl

theorem TermTree.scannedAs (tree : TermTree) (named : SymbolNames tree.tokens) :
    ScannedAs tree.text tree.tokens := by
  have asterisk : ClosedAs "*" [.asterisk] := closedAs_marks "*" (by decide)
  have mark : ∃ c ∈ "*".toList.head?, isSymbolChar c = false := ⟨'*', rfl, by decide⟩
  cases tree with
  | register r => exact r.scannedAs
  | number n => exact scannedAs_number n
  | symbol name => exact (named name (List.mem_singleton.2 rfl)).scannedAs
  | registerFirst r n => exact (r.scannedAs.closed asterisk mark).append (scannedAs_number n)
  | factorFirst n r => exact ((scannedAs_number n).closed asterisk mark).append r.scannedAs

theorem SignedTree.scannedAs (tree : SignedTree) (named : SymbolNames tree.tokens) :
    ScannedAs tree.text tree.tokens :=
  (closedAs_joiningSign tree.negative).append (tree.term.scannedAs named.tail)

/-- Signed terms may follow a term, since they start with a blank. -/
theorem scannedAs_join {trees : List SignedTree}
    (named : SymbolNames (trees.flatMap SignedTree.tokens)) :
    ScannedAs (String.join (trees.map SignedTree.text)) (trees.flatMap SignedTree.tokens) ∧
      joins (String.join (trees.map SignedTree.text)).toList.head? = false := by
  induction trees with
  | nil => exact ⟨fun rest _ => rfl, rfl⟩
  | cons tree trees ih =>
    rw [List.flatMap_cons, symbolNames_append] at named
    obtain ⟨later, apart⟩ := ih named.2
    rw [List.map_cons, String.join_cons, List.flatMap_cons]
    refine ⟨(tree.scannedAs named.1).append later apart, ?_⟩
    rw [SignedTree.text, String.append_assoc]
    exact joins_joiningSign tree.negative _

theorem SumTree.scannedAs (tree : SumTree) (named : SymbolNames tree.tokens) :
    ScannedAs tree.text tree.tokens := by
  rw [tokens, symbolNames_append, symbolNames_append] at named
  obtain ⟨-, first, rest⟩ := named
  obtain ⟨later, apart⟩ := scannedAs_join rest
  exact (closedAs_leadingSign tree.negated).append ((tree.first.scannedAs first).append later apart)

theorem closedAs_sizeText (size : Option Size) : ClosedAs (sizeText size) (sizeTokens size) := by
  cases size with
  | none => exact closedAs_marks "" (by decide)
  | some s =>
    have blank : ClosedAs " " [] := closedAs_marks " " (by decide)
    have mark : ∃ c ∈ " ".toList.head?, isSymbolChar c = false := ⟨' ', rfl, by decide⟩
    have word : ScannedAs "ptr" [.ptr] := scannedAs_word (by decide) (by decide)
    have ptr : ClosedAs " ptr " [.ptr] := blank.append_closed (word.closed blank mark)
    exact s.scannedAs.closed ptr ⟨' ', rfl, by decide⟩

private theorem closedAs_segmentText (segment : Option (Fin 6)) :
    ClosedAs (segmentText segment) (segmentTokens segment) := by
  cases segment with
  | none => exact closedAs_marks "" (by decide)
  | some n =>
    exact (Register.segment n).scannedAs.closed (closedAs_marks ":" (by decide)) ⟨':', rfl, by decide⟩

/-- The text of a derivation has its tokens. -/
theorem MemoryTree.scannedAs (tree : MemoryTree) (named : SymbolNames tree.tokens) :
    ScannedAs tree.text tree.tokens := by
  have left : ClosedAs "[" [.leftBracket] := closedAs_marks "[" (by decide)
  have right : ClosedAs "]" [.rightBracket] := closedAs_marks "]" (by decide)
  simp only [tokens, symbolNames_append] at named
  obtain ⟨-, -, before, within⟩ := named
  have inner : SymbolNames tree.inner.tokens := (symbolNames_append.1 within.tail).1
  have brackets : ScannedAs ("[" ++ (tree.inner.text ++ "]"))
      (.leftBracket :: (tree.inner.tokens ++ [.rightBracket])) :=
    left.append ((tree.inner.scannedAs inner).append right.scannedAs rfl)
  have outer : ScannedAs (tree.outer.elim "" SumTree.text) tree.outerTokens := by
    rw [outerTokens] at before ⊢
    generalize tree.outer = outer at before ⊢
    cases outer with
    | none => exact fun rest _ => rfl
    | some sum => exact sum.scannedAs before
  exact (closedAs_sizeText tree.size).append
    ((closedAs_segmentText tree.segment).append (outer.append brackets (by rw [String.toList_append]; rfl)))

theorem PlainTree.scannedAs (tree : PlainTree) (named : SymbolNames tree.tokens) :
    ScannedAs tree.text tree.tokens := by
  cases tree with
  | register r => exact r.scannedAs
  | number negated n => exact (closedAs_leadingSign negated).append (scannedAs_number n)
  | symbol name => exact (named name (List.mem_singleton.2 rfl)).scannedAs
  | displaced name negative n =>
    have symbol : IsSymbolName name := named name List.mem_cons_self
    exact symbol.scannedAs.append ((closedAs_joiningSign negative).append (scannedAs_number n))
      (joins_joiningSign negative _)

/-- A token that operands are made of. -/
def Token.IsReadable (t : Token) : Prop :=
  t ≠ .leftBrace ∧ ∀ lexeme, t ≠ .error lexeme

theorem TermTree.isReadable (tree : TermTree) : ∀ t ∈ tree.tokens, t.IsReadable := by
  cases tree <;> simp [tokens, Token.IsReadable]

theorem SumTree.isReadable (tree : SumTree) : ∀ t ∈ tree.tokens, t.IsReadable := by
  have sign : ∀ t ∈ if tree.negated then [Token.minus] else [], t.IsReadable := by
    cases tree.negated <;> simp [Token.IsReadable]
  have signed (part : SignedTree) : ∀ t ∈ part.tokens, t.IsReadable := by
    rw [SignedTree.tokens, List.forall_mem_cons]
    refine ⟨?_, part.term.isReadable⟩
    rw [SignedTree.sign]
    cases part.negative <;> simp [Token.IsReadable]
  simp only [tokens, List.forall_mem_append]
  refine ⟨sign, tree.first.isReadable, ?_⟩
  intro t member
  obtain ⟨part, -, within⟩ := List.mem_flatMap.1 member
  exact signed part t within

theorem MemoryTree.isReadable (tree : MemoryTree) : ∀ t ∈ tree.tokens, t.IsReadable := by
  have size : ∀ t ∈ sizeTokens tree.size, t.IsReadable := by
    cases tree.size <;> simp [sizeTokens, Token.IsReadable]
  have segment : ∀ t ∈ segmentTokens tree.segment, t.IsReadable := by
    cases tree.segment <;> simp [segmentTokens, Token.IsReadable]
  have outer : ∀ t ∈ tree.outerTokens, t.IsReadable := by
    rw [outerTokens]
    cases tree.outer with
    | none => simp
    | some sum => exact sum.isReadable
  simp only [tokens, List.forall_mem_append, List.forall_mem_cons]
  exact ⟨size, segment, outer, by simp [Token.IsReadable], tree.inner.isReadable,
    by simp [Token.IsReadable]⟩

theorem PlainTree.isReadable (tree : PlainTree) :
    ∀ t ∈ tree.tokens, t.IsReadable ∧ t ≠ .leftBracket := by
  cases tree with
  | number negated n => cases negated <;> simp [tokens, Token.IsReadable]
  | displaced name negative n => cases negative <;> simp [tokens, Token.IsReadable]
  | _ => simp [tokens, Token.IsReadable]

theorem MemoryTree.readOperand_eq {tree : MemoryTree} {m : MemoryOperand}
    (named : SymbolNames tree.tokens) (denotes : tree.form.reference = .ok m) :
    readOperand tree.text = .ok (.memory m) := by
  rw [readOperand, (tree.scannedAs named).tokens_eq]
  refine readTokens_eq_ok_iff.2 ⟨?_, ?_, .inl ⟨?_, tree.form, m, ?_, denotes, rfl⟩⟩
  · exact fun lexeme member => (tree.isReadable _ member).2 lexeme rfl
  · exact fun member => (tree.isReadable _ member).1 rfl
  · simp [tokens]
  · exact readMemory_eq_ok_iff_exists_tree.2 ⟨tree, rfl, rfl⟩

theorem PlainTree.readOperand_eq {tree : PlainTree} (named : SymbolNames tree.tokens) :
    readOperand tree.text = .ok tree.operand := by
  rw [readOperand, (tree.scannedAs named).tokens_eq]
  refine readTokens_eq_ok_iff.2 ⟨?_, ?_, .inr ⟨?_, readPlain_eq_ok_iff.2 ⟨tree, rfl, rfl⟩⟩⟩
  · exact fun lexeme member => (tree.isReadable _ member).1.2 lexeme rfl
  · exact fun member => (tree.isReadable _ member).1.1 rfl
  · exact fun member => (tree.isReadable _ member).2 rfl

/-- The absolute value of a word; that of the least one needs all 64 bits. -/
def magnitude (n : Int64) : UInt64 :=
  UInt64.ofNat n.toInt.natAbs

/-- The parts of an address that are there, in the order base, index, symbol, displacement. -/
def MemoryOperand.parts (m : MemoryOperand) : List SignedTree :=
  m.base.toList.map (fun r => ⟨false, .register r⟩) ++
    (m.index.toList.map (fun entry => ⟨false, .factorFirst (UInt64.ofNat entry.2.factor) entry.1⟩) ++
      (m.symbol.toList.map (fun name => ⟨false, .symbol name⟩) ++
        if m.displacement = 0 then []
        else [⟨m.displacement < 0, .number (magnitude m.displacement)⟩]))

def SumTree.ofParts : List SignedTree → SumTree
  | [] => ⟨false, .number 0, []⟩
  | first :: rest => ⟨first.negative, first.term, rest⟩

/-- The derivation that a memory operand is written by. -/
def MemoryOperand.tree (m : MemoryOperand) : MemoryTree :=
  ⟨m.size, m.segment, none, .ofParts m.parts⟩

/-- The text of an operand in a listing. -/
def Operand.text : Operand → String
  | register r => (PlainTree.register r).text
  | immediate n => (PlainTree.number (n < 0) (magnitude n)).text
  | symbol name addend =>
    if addend = 0 then (PlainTree.symbol name).text
    else (PlainTree.displaced name (addend < 0) (magnitude addend)).text
  | memory m => m.tree.text

/-- The registers of an address can stand where they are, and its symbol has a name. -/
structure MemoryOperand.WellFormed (m : MemoryOperand) : Prop where
  base : ∀ r, m.base = some r → r.isUsableInAddress
  index : ∀ r scale, m.index = some (r, scale) →
    r.isUsableInAddress ∧ r ≠ .instructionPointer ∧ m.base ≠ some .instructionPointer
  symbol : ∀ name, m.symbol = some name → IsSymbolName name

def Operand.WellFormed : Operand → Prop
  | register _ => True
  | immediate _ => True
  | symbol name _ => IsSymbolName name
  | memory m => m.WellFormed

private theorem toNat_magnitude (n : Int64) : (magnitude n).toNat = n.toInt.natAbs := by
  have least := n.le_toInt
  have most := n.toInt_lt
  rw [magnitude, UInt64.toNat_ofNat']
  omega

/-- A word is its absolute value under its sign, the least one included. -/
theorem signedWord_magnitude (n : Int64) : signedWord (n < 0) (magnitude n) = n := by
  have least := n.le_toInt
  have most := n.toInt_lt
  have least' := (signedWord (n < 0) (magnitude n)).le_toInt
  have most' := (signedWord (n < 0) (magnitude n)).toInt_lt
  have same := toInt_signedWord_modEq ⟨fun _ => 0, fun _ => 0⟩ (n < 0) (magnitude n)
  have value : SignedTerm.value ⟨fun _ => 0, fun _ => 0⟩ ⟨n < 0, .number (magnitude n)⟩ = n.toInt := by
    have negative : n < 0 ↔ n.toInt < 0 := Int64.lt_iff_toInt_lt
    simp only [SignedTerm.value, Term.value, toNat_magnitude]
    split
    case isTrue below =>
      have below : n.toInt < 0 := negative.1 (of_decide_eq_true below)
      omega
    case isFalse above =>
      have above : ¬n.toInt < 0 := fun below => above (decide_eq_true (negative.2 below))
      omega
  rw [value] at same
  apply Int64.toInt_inj.1
  unfold Int.ModEq at same
  omega

/-- A part that may be absent is taken in if it is there. -/
theorem foldlM_addTerm_toList {α : Type} (part : α → SignedTree) {entry : Option α}
    {m m' : MemoryOperand} (absent : entry = none → m = m')
    (present : ∀ a, entry = some a → m.addTerm (part a).signedTerm = .ok m') :
    ((entry.toList.map part).map SignedTree.signedTerm).foldlM MemoryOperand.addTerm m = .ok m' := by
  cases entry with
  | none =>
    obtain rfl := absent rfl
    rfl
  | some a =>
    have added := present a rfl
    simp [added, bind, Except.bind, pure, Except.pure]

private theorem ofFactor?_factor (scale : Scale) :
    Scale.ofFactor? (UInt64.ofNat scale.factor) = some scale := by
  cases scale <;> decide

namespace MemoryOperand

variable {m : MemoryOperand}

/-- The parts of an address make it up again. -/
theorem WellFormed.foldlM_parts (h : m.WellFormed) :
    (m.parts.map SignedTree.signedTerm).foldlM addTerm { size := m.size, segment := m.segment } =
      .ok m := by
  obtain ⟨size, segment, base, index, displacement, symbol⟩ := m
  obtain ⟨usable, indexed, -⟩ := h
  have first : ((base.toList.map fun r => (⟨false, .register r⟩ : SignedTree)).map
      SignedTree.signedTerm).foldlM addTerm { size := size, segment := segment } =
      .ok { size := size, segment := segment, base := base } := by
    refine foldlM_addTerm_toList _ (by rintro rfl; rfl) ?_
    rintro r rfl
    simp [SignedTree.signedTerm, TermTree.term, addTerm, addRegister, usable r rfl]
  have second : ((index.toList.map fun entry =>
      (⟨false, .factorFirst (UInt64.ofNat entry.2.factor) entry.1⟩ : SignedTree)).map
      SignedTree.signedTerm).foldlM addTerm { size := size, segment := segment, base := base } =
      .ok { size := size, segment := segment, base := base, index := index } := by
    refine foldlM_addTerm_toList _ (by rintro rfl; rfl) ?_
    rintro ⟨r, scale⟩ rfl
    obtain ⟨usable, noRip, -⟩ := indexed r scale rfl
    simp [SignedTree.signedTerm, TermTree.term, addTerm, addScaled, usable, noRip, ofFactor?_factor]
  have third : ((symbol.toList.map fun name => (⟨false, .symbol name⟩ : SignedTree)).map
      SignedTree.signedTerm).foldlM addTerm
      { size := size, segment := segment, base := base, index := index } =
      .ok { size := size, segment := segment, base := base, index := index, symbol := symbol } := by
    refine foldlM_addTerm_toList _ (by rintro rfl; rfl) ?_
    rintro name rfl
    simp [SignedTree.signedTerm, TermTree.term, addTerm, addSymbol]
  rw [parts]
  simp only [List.map_append, List.foldlM_append, first, second, third, bind, Except.bind]
  split
  case isTrue zero =>
    obtain rfl : displacement = 0 := zero
    rfl
  case isFalse =>
    simp [SignedTree.signedTerm, TermTree.term, addTerm, addNumber, signedWord_magnitude]

private theorem foldlM_ofParts (start : MemoryOperand) (parts : List SignedTree) :
    (SumTree.ofParts parts).terms.foldlM addTerm start =
      (parts.map SignedTree.signedTerm).foldlM addTerm start := by
  cases parts with
  | nil =>
    have none : start.addNumber false 0 = start := by
      simp [addNumber, signedWord]
    have read : (SumTree.ofParts []).terms.foldlM addTerm start = .ok (start.addNumber false 0) := rfl
    rw [read, none]
    rfl
  | cons first rest => rfl

theorem WellFormed.checkIndex (h : m.WellFormed) : m.checkIndex = .ok m :=
  checkIndex_eq_ok_iff.2 ⟨rfl, fun r scale index => (h.index r scale index).2⟩

theorem WellFormed.reference (h : m.WellFormed) : m.tree.form.reference = .ok m := by
  have terms : m.tree.form.terms = (SumTree.ofParts m.parts).terms := rfl
  refine MemoryForm.reference_eq_ok_iff.2 ⟨rfl, ?_, h.checkIndex⟩
  rw [terms, foldlM_ofParts]
  exact h.foldlM_parts

private theorem mem_tokens_ofParts {parts : List SignedTree} {name : String}
    (h : .ident name ∈ (SumTree.ofParts parts).tokens) :
    ∃ part ∈ parts, part.term = .symbol name := by
  have named {tree : TermTree} (member : .ident name ∈ tree.tokens) : tree = .symbol name := by
    cases tree <;> simp_all [TermTree.tokens]
  cases parts with
  | nil => simp [SumTree.ofParts, SumTree.tokens, TermTree.tokens] at h
  | cons first rest =>
    rw [SumTree.ofParts, SumTree.tokens, List.mem_append, List.mem_append, List.mem_flatMap] at h
    rcases h with sign | own | ⟨part, member, later⟩
    · split at sign <;> simp at sign
    · exact ⟨first, List.mem_cons_self, named own⟩
    · refine ⟨part, List.mem_cons_of_mem first member, named ?_⟩
      rw [SignedTree.tokens, SignedTree.sign, List.mem_cons] at later
      rcases later with sign | own
      · split at sign <;> cases sign
      · exact own

private theorem WellFormed.symbolNames (h : m.WellFormed) : SymbolNames m.tree.tokens := by
  intro name member
  have within : .ident name ∈ (SumTree.ofParts m.parts).tokens := by
    have noSize : .ident name ∉ sizeTokens m.size := by cases m.size <;> simp [sizeTokens]
    have noSegment : .ident name ∉ segmentTokens m.segment := by
      cases m.segment <;> simp [segmentTokens]
    simpa [tree, MemoryTree.tokens, MemoryTree.outerTokens, noSize, noSegment] using member
  obtain ⟨part, member, isSymbol⟩ := mem_tokens_ofParts within
  apply h.symbol
  simp only [parts, List.mem_append, List.mem_map] at member
  rcases member with ⟨r, -, rfl⟩ | ⟨entry, -, rfl⟩ | ⟨other, there, rfl⟩ | displacement
  · cases isSymbol
  · cases isSymbol
  · obtain rfl := TermTree.symbol.inj isSymbol
    exact Option.mem_toList.1 there
  · split at displacement
    · cases displacement
    · obtain rfl := List.mem_singleton.1 displacement
      cases isSymbol

end MemoryOperand

/-- Reading the text of an operand gives the operand back. -/
theorem readOperand_text {operand : Operand} (h : operand.WellFormed) :
    readOperand operand.text = .ok operand := by
  cases operand with
  | register r =>
    have named : SymbolNames (PlainTree.register r).tokens := by simp [SymbolNames, PlainTree.tokens]
    exact PlainTree.readOperand_eq named
  | immediate n =>
    have named : SymbolNames (PlainTree.number (n < 0) (magnitude n)).tokens := by
      simp [SymbolNames, PlainTree.tokens]
    have read := PlainTree.readOperand_eq named
    rwa [PlainTree.operand, signedWord_magnitude] at read
  | memory m => exact MemoryTree.readOperand_eq h.symbolNames h.reference
  | symbol name addend =>
    have isName : IsSymbolName name := h
    rw [Operand.text]
    split
    case isTrue zero =>
      subst zero
      have named : SymbolNames (PlainTree.symbol name).tokens := by
        simpa [SymbolNames, PlainTree.tokens] using isName
      exact PlainTree.readOperand_eq named
    case isFalse =>
      have named : SymbolNames (PlainTree.displaced name (addend < 0) (magnitude addend)).tokens := by
        intro other member
        have noSign : .ident other ≠ if addend < 0 then Token.minus else .plus := by split <;> simp
        obtain rfl : other = name := by simpa [PlainTree.tokens, noSign] using member
        exact isName
      have read := PlainTree.readOperand_eq named
      rwa [PlainTree.operand, signedWord_magnitude] at read

/-- An address that has every part, with the least displacement. -/
theorem readOperand_text_leastDisplacement :
    let operand := Operand.memory { size := some .dword, segment := some 4,
                                    base := some (.general .qword 0),
                                    index := some (.general .qword 1, .four),
                                    displacement := Int64.minValue, symbol := some ".LC0" }
    operand.text = "dword ptr fs:[rax + 4*rcx + .LC0 - 9223372036854775808]" ∧ operand.WellFormed ∧
      readOperand operand.text = .ok operand := by
  intro operand
  have symbol : IsSymbolName ".LC0" := ⟨by decide, by decide, by decide +kernel, by decide, by decide⟩
  have wellFormed : operand.WellFormed := by
    refine ⟨?_, ?_, ?_⟩
    · rintro r ⟨⟩
      rfl
    · rintro r scale ⟨⟩
      exact ⟨rfl, by decide, by decide⟩
    · rintro name ⟨⟩
      exact symbol
  exact ⟨by decide +kernel, wellFormed, readOperand_text wellFormed⟩

example : Operand.text (.memory {}) = "[0]" := by
  decide +kernel

end AsmTranslit
