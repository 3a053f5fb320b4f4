import AsmTranslit.OperandReader
import AsmTranslit.Proofs.CheckedRuns

/-!
# The grammar of memory operands

The token lists that spell a memory operand, as inductive relations that say nothing of how a list is
read.  A size and a segment may come first, then perhaps a sum, then a sum between brackets.  The
reader accepts exactly these lists, and a list spells at most one form.
-/

namespace AsmTranslit

/-- The ways to write a term.  A scaled register has its factor on either side. -/
inductive Term.Spelling : Term → List Token → Prop
  | register (r : Register) : Spelling (.register r) [.register r]
  | number (n : UInt64) : Spelling (.number n) [.number n]
  | symbol (name : String) : Spelling (.symbol name) [.ident name]
  | registerFirst (r : Register) (n : UInt64) :
      Spelling (.scaled r n) [.register r, .asterisk, .number n]
  | factorFirst (r : Register) (n : UInt64) :
      Spelling (.scaled r n) [.number n, .asterisk, .register r]

/-- Terms that each have a sign in front. -/
inductive SignedSpelling : List SignedTerm → List Token → Prop
  | nil : SignedSpelling [] []
  | cons {sign : Token} {negative : Bool} {t : Term} {terms : List SignedTerm} {ts us : List Token}
      (subtracts : sign.subtracts? = some negative) (head : t.Spelling ts)
      (tail : SignedSpelling terms us) : SignedSpelling (⟨negative, t⟩ :: terms) (sign :: (ts ++ us))

/-- A sum.  Its first term has a minus sign or none. -/
inductive SumSpelling : List SignedTerm → List Token → Prop
  | bare {t : Term} {terms : List SignedTerm} {ts us : List Token} (head : t.Spelling ts)
      (tail : SignedSpelling terms us) : SumSpelling (⟨false, t⟩ :: terms) (ts ++ us)
  | negated {t : Term} {terms : List SignedTerm} {ts us : List Token} (head : t.Spelling ts)
      (tail : SignedSpelling terms us) : SumSpelling (⟨true, t⟩ :: terms) (.minus :: (ts ++ us))

/-- A sum that may be left out. -/
inductive OptionalSum : List SignedTerm → List Token → Prop
  | absent : OptionalSum [] []
  | present {terms : List SignedTerm} {ts : List Token} (sum : SumSpelling terms ts) :
      OptionalSum terms ts

def sizeTokens : Option Size → List Token
  | none => []
  | some s => [.size s, .ptr]

def segmentTokens : Option (Fin 6) → List Token
  | none => []
  | some n => [.register (.segment n), .colon]

/-- The ways to write a memory operand. -/
inductive MemoryForm.Spelling : MemoryForm → List Token → Prop
  | intro {size : Option Size} {segment : Option (Fin 6)} {outer inner : List SignedTerm}
      {ts us : List Token} (outside : OptionalSum outer ts) (within : SumSpelling inner us) :
      Spelling ⟨size, segment, outer, inner⟩
        (sizeTokens size ++ (segmentTokens segment ++ (ts ++ .leftBracket :: (us ++ [.rightBracket]))))

/-- Tokens at which a sum ends: no sign goes on with it, and no asterisk turns its last term into a
scaled register. -/
def EndsSum (rest : List Token) : Prop :=
  ∀ t ∈ rest.head?, t ≠ .asterisk ∧ t.subtracts? = none

private theorem endsSum_leftBracket (rest : List Token) : EndsSum (.leftBracket :: rest) := by
  simp [EndsSum, Token.subtracts?]

private theorem endsSum_rightBracket (rest : List Token) : EndsSum (.rightBracket :: rest) := by
  simp [EndsSum, Token.subtracts?]

theorem readSignedTerms_sign {sign : Token} {negative : Bool} (ts : List Token)
    (subtracts : sign.subtracts? = some negative) :
    readSignedTerms (sign :: ts) = (do
      let (t, rest) ← readTerm ts
      let (terms, after) ← readSignedTerms rest
      return (⟨negative, t⟩ :: terms, after)) := by
  rw [readSignedTerms]
  split
  · next none => simp [subtracts] at none
  · next negative' some =>
    obtain rfl : negative = negative' := by simpa [subtracts] using some
    cases read : readTerm ts with
    | error fault => rfl
    | ok pair =>
      obtain ⟨t, rest⟩ := pair
      cases readRest : readSignedTerms rest with
      | error fault => simp [readRest, bind, Except.bind]
      | ok pair => simp [readRest, bind, Except.bind, pure, Except.pure]

theorem spelling_of_readTerm {ts rest : List Token} {t : Term} (h : readTerm ts = .ok (t, rest)) :
    ∃ us, ts = us ++ rest ∧ t.Spelling us := by
  fun_cases readTerm ts with
  | case1 r n after =>
    cases h
    exact ⟨[.register r, .asterisk, .number n], rfl, .registerFirst r n⟩
  | case2 r after => simp [readTerm] at h
  | case3 n r after =>
    cases h
    exact ⟨[.number n, .asterisk, .register r], rfl, .factorFirst r n⟩
  | case4 n after => simp [readTerm] at h
  | case5 r after other =>
    obtain ⟨rfl, rfl⟩ : .register r = t ∧ after = rest := by simpa [readTerm, other] using h
    exact ⟨[.register r], rfl, .register r⟩
  | case6 n after other =>
    obtain ⟨rfl, rfl⟩ : .number n = t ∧ after = rest := by simpa [readTerm, other] using h
    exact ⟨[.number n], rfl, .number n⟩
  | case7 name after =>
    cases h
    exact ⟨[.ident name], rfl, .symbol name⟩
  | case8 => simp_all [readTerm]

private theorem spelling_of_readSignedTerms {ts rest : List Token} {terms : List SignedTerm}
    (h : readSignedTerms ts = .ok (terms, rest)) :
    ∃ us, ts = us ++ rest ∧ SignedSpelling terms us := by
  fun_induction readSignedTerms ts generalizing terms rest with
  | case1 =>
    cases h
    exact ⟨[], rfl, .nil⟩
  | case2 t ts =>
    cases h
    exact ⟨[], rfl, .nil⟩
  | case3 => cases h
  | case4 => cases h
  | case5 t ts negative subtracts term after read terms' rest' readRest ih =>
    cases h
    obtain ⟨us, rfl, head⟩ := spelling_of_readTerm read
    obtain ⟨vs, rfl, tail⟩ := ih readRest
    exact ⟨t :: (us ++ vs), by simp, .cons subtracts head tail⟩

theorem spelling_of_readSignedTerms_sign {sign : Token} {negative : Bool} {ts rest : List Token}
    {terms : List SignedTerm} (subtracts : sign.subtracts? = some negative)
    (h : readSignedTerms (sign :: ts) = .ok (terms, rest)) :
    ∃ t later us vs, terms = ⟨negative, t⟩ :: later ∧ ts = (us ++ vs) ++ rest ∧ t.Spelling us ∧
      SignedSpelling later vs := by
  rw [readSignedTerms_sign ts subtracts] at h
  simp only [bind_eq_ok_iff] at h
  obtain ⟨⟨t, after⟩, readHead, ⟨later, rest'⟩, readTail, equal⟩ := h
  cases equal
  obtain ⟨us, rfl, head⟩ := spelling_of_readTerm readHead
  obtain ⟨vs, rfl, tail⟩ := spelling_of_readSignedTerms readTail
  exact ⟨t, later, us, vs, rfl, by simp, head, tail⟩

theorem spelling_of_readSum {ts rest : List Token} {terms : List SignedTerm}
    (h : readSum ts = .ok (terms, rest)) : ∃ us, ts = us ++ rest ∧ SumSpelling terms us := by
  have minus : Token.minus.subtracts? = some true := rfl
  have plus : Token.plus.subtracts? = some false := rfl
  fun_cases readSum ts with
  | case1 ts =>
    obtain ⟨t, later, us, vs, rfl, rfl, head, tail⟩ :=
      spelling_of_readSignedTerms_sign minus h
    exact ⟨.minus :: (us ++ vs), rfl, .negated head tail⟩
  | case2 first ts notMinus starts =>
    have signed : readSignedTerms (.plus :: first :: ts) = .ok (terms, rest) := by
      simpa [readSum, starts] using h
    obtain ⟨t, later, us, vs, rfl, equal, head, tail⟩ :=
      spelling_of_readSignedTerms_sign plus signed
    exact ⟨us ++ vs, equal, .bare head tail⟩
  | case3 first ts notMinus stops => simp [readSum, stops] at h
  | case4 => simp [readSum] at h

theorem spelling_of_readBrackets {ts : List Token} {terms : List SignedTerm}
    (h : readBrackets ts = .ok terms) : ∃ us, ts = us ++ [.rightBracket] ∧ SumSpelling terms us := by
  rw [readBrackets, bind_eq_ok_iff] at h
  obtain ⟨⟨terms', rest⟩, read, closed⟩ := h
  obtain ⟨us, rfl, spelled⟩ := spelling_of_readSum read
  simp only at closed
  split at closed
  · cases closed
    exact ⟨us, rfl, spelled⟩
  · cases closed
  · cases closed

theorem spelling_of_readSums {size : Option Size} {segment : Option (Fin 6)}
    {start : List Expectation} {ts : List Token} {form : MemoryForm}
    (h : readSums size segment start ts = .ok form) :
    ∃ outer inner us vs, form = ⟨size, segment, outer, inner⟩ ∧
      ts = us ++ .leftBracket :: (vs ++ [.rightBracket]) ∧ OptionalSum outer us ∧
      SumSpelling inner vs := by
  fun_cases readSums size segment start ts with
  | case1 rest =>
    simp only [readSums, bind_eq_ok_iff] at h
    obtain ⟨inner, read, equal⟩ := h
    cases equal
    obtain ⟨vs, rfl, within⟩ := spelling_of_readBrackets read
    exact ⟨[], inner, [], vs, rfl, rfl, .absent, within⟩
  | case2 t ts notBracket starts =>
    simp only [readSums, starts, if_true, bind_eq_ok_iff] at h
    obtain ⟨⟨outer, rest⟩, readOuter, h⟩ := h
    obtain ⟨us, equal, outside⟩ := spelling_of_readSum readOuter
    simp only at h
    split at h
    · next after =>
      rw [bind_eq_ok_iff] at h
      obtain ⟨inner, read, done⟩ := h
      cases done
      obtain ⟨vs, rfl, within⟩ := spelling_of_readBrackets read
      exact ⟨outer, inner, us, vs, rfl, equal, .present outside, within⟩
    · cases h
  | case3 t ts notBracket stops => simp [readSums, stops] at h
  | case4 => simp [readSums] at h

theorem spelling_of_readAddress {size : Option Size} {start : List Expectation} {ts : List Token}
    {form : MemoryForm} (h : readAddress size start ts = .ok form) :
    form.Spelling (sizeTokens size ++ ts) := by
  fun_cases readAddress size start ts with
  | case1 n rest =>
    obtain ⟨outer, inner, us, vs, rfl, rfl, outside, within⟩ := spelling_of_readSums h
    have spelled : MemoryForm.Spelling ⟨size, some n, outer, inner⟩ _ := .intro outside within
    exact spelled
  | case2 ts noSegment =>
    have h : readSums size none start ts = .ok form := by simpa [readAddress, noSegment] using h
    obtain ⟨outer, inner, us, vs, rfl, rfl, outside, within⟩ := spelling_of_readSums h
    have spelled : MemoryForm.Spelling ⟨size, none, outer, inner⟩ _ := .intro outside within
    exact spelled

theorem spelling_of_readMemory {ts : List Token} {form : MemoryForm}
    (h : readMemory ts = .ok form) : form.Spelling ts := by
  fun_cases readMemory ts with
  | case1 s rest =>
    have spelled := spelling_of_readAddress h
    exact spelled
  | case2 s rest noPtr => simp [readMemory] at h
  | case3 ts noPtr noSize =>
    have h : readAddress none [.memoryOperand] ts = .ok form := by
      simpa [readMemory, noPtr, noSize] using h
    exact spelling_of_readAddress h

private theorem readTerm_append {t : Term} {ts rest : List Token} (h : t.Spelling ts)
    (ends : ∀ u ∈ rest.head?, u ≠ .asterisk) : readTerm (ts ++ rest) = .ok (t, rest) := by
  have noAsterisk (us : List Token) : rest ≠ .asterisk :: us := by
    rintro rfl
    exact ends .asterisk rfl rfl
  cases h with
  | register r =>
    rw [List.singleton_append, readTerm]
    exact noAsterisk
  | number n =>
    rw [List.singleton_append, readTerm]
    exact noAsterisk
  | symbol name => simp [readTerm]
  | registerFirst r n => simp [readTerm]
  | factorFirst r n => simp [readTerm]

private theorem head_ne_asterisk {terms : List SignedTerm} {us rest : List Token}
    (h : SignedSpelling terms us) (ends : EndsSum rest) :
    ∀ u ∈ (us ++ rest).head?, u ≠ .asterisk := by
  cases h with
  | nil => exact fun u first => (ends u first).1
  | cons subtracts head tail =>
    rintro u first rfl
    obtain rfl : _ = Token.asterisk := by simpa using first
    cases subtracts

theorem readSignedTerms_append {terms : List SignedTerm} {ts rest : List Token}
    (h : SignedSpelling terms ts) (ends : EndsSum rest) :
    readSignedTerms (ts ++ rest) = .ok (terms, rest) := by
  induction h with
  | nil =>
    cases rest with
    | nil => simp [readSignedTerms]
    | cons t rest =>
      rw [List.nil_append, readSignedTerms]
      simp [(ends t rfl).2]
  | @cons sign negative t terms ts us subtracts head tail ih =>
    have read : readTerm (ts ++ (us ++ rest)) = .ok (t, us ++ rest) :=
      readTerm_append head (head_ne_asterisk tail ends)
    rw [List.cons_append, List.append_assoc, readSignedTerms_sign _ subtracts, read]
    simp [bind, Except.bind, ih, pure, Except.pure]

theorem readSum_append {terms : List SignedTerm} {ts rest : List Token}
    (h : SumSpelling terms ts) (ends : EndsSum rest) : readSum (ts ++ rest) = .ok (terms, rest) := by
  have minus : Token.minus.subtracts? = some true := rfl
  have plus : Token.plus.subtracts? = some false := rfl
  cases h with
  | @bare t terms ts us head tail =>
    have signed := readSignedTerms_append (.cons plus head tail) ends
    obtain ⟨first, after, equal, starts⟩ : ∃ first after, ts = first :: after ∧ first.startsTerm := by
      cases head <;> exact ⟨_, _, rfl, rfl⟩
    subst equal
    have noMinus : first ≠ .minus := by
      rintro rfl
      cases starts
    simpa [readSum, noMinus, starts] using signed
  | negated head tail =>
    have signed := readSignedTerms_append (.cons minus head tail) ends
    simpa [readSum] using signed

private theorem readBrackets_append {terms : List SignedTerm} {ts : List Token}
    (h : SumSpelling terms ts) : readBrackets (ts ++ [.rightBracket]) = .ok terms := by
  have read := readSum_append h (endsSum_rightBracket [])
  simp [readBrackets, read, bind, Except.bind]

theorem SumSpelling.exists_head {terms : List SignedTerm} {ts : List Token}
    (h : SumSpelling terms ts) :
    ∃ first rest, ts = first :: rest ∧ (first = .minus ∨ first.startsTerm) := by
  cases h with
  | bare head tail => cases head <;> exact ⟨_, _, rfl, .inr rfl⟩
  | negated head tail => exact ⟨_, _, rfl, .inl rfl⟩

theorem readSums_append {size : Option Size} {segment : Option (Fin 6)} {start : List Expectation}
    {outer inner : List SignedTerm} {ts us : List Token} (outside : OptionalSum outer ts)
    (within : SumSpelling inner us) :
    readSums size segment start (ts ++ .leftBracket :: (us ++ [.rightBracket])) =
      .ok ⟨size, segment, outer, inner⟩ := by
  have brackets := readBrackets_append within
  cases outside with
  | absent => simp [readSums, brackets, bind, Except.bind, pure, Except.pure]
  | present sum =>
    have read := readSum_append sum (endsSum_leftBracket (us ++ [.rightBracket]))
    obtain ⟨first, rest, rfl, starts⟩ := sum.exists_head
    have noBracket : first ≠ .leftBracket := by
      rintro rfl
      simp [Token.startsTerm] at starts
    simp only [List.cons_append] at read ⊢
    simp [readSums, starts, read, brackets, bind, Except.bind, pure, Except.pure]

/-- A sum is not taken for a segment override. -/
theorem OptionalSum.ne_segment {terms : List SignedTerm} {ts : List Token} (h : OptionalSum terms ts)
    (rest : List Token) (n : Fin 6) (after : List Token) :
    ts ++ .leftBracket :: rest ≠ .register (.segment n) :: .colon :: after := by
  intro equal
  cases h with
  | absent => simp at equal
  | present sum =>
    cases sum with
    | negated head tail => simp at equal
    | bare head tail =>
      cases head <;> cases tail <;> simp at equal
      next subtracts _ _ =>
        obtain ⟨-, rfl, -⟩ := equal
        cases subtracts

theorem readAddress_append {size : Option Size} {segment : Option (Fin 6)}
    {start : List Expectation} {outer inner : List SignedTerm} {ts us : List Token}
    (outside : OptionalSum outer ts) (within : SumSpelling inner us) :
    readAddress size start
        (segmentTokens segment ++ (ts ++ .leftBracket :: (us ++ [.rightBracket]))) =
      .ok ⟨size, segment, outer, inner⟩ := by
  cases segment with
  | some n => exact readSums_append outside within
  | none =>
    rw [segmentTokens, List.nil_append, readAddress]
    · exact readSums_append outside within
    · exact outside.ne_segment _

theorem OptionalSum.ne_size {terms : List SignedTerm} {ts : List Token} (h : OptionalSum terms ts)
    (segment : Option (Fin 6)) (rest : List Token) (s : Size) (after : List Token) :
    segmentTokens segment ++ (ts ++ .leftBracket :: rest) ≠ .size s :: after := by
  intro equal
  cases segment with
  | some n => simp [segmentTokens] at equal
  | none =>
    cases h with
    | absent => simp [segmentTokens] at equal
    | present sum =>
      obtain ⟨first, more, rfl, starts⟩ := sum.exists_head
      obtain ⟨rfl, -⟩ : first = .size s ∧ _ := by simpa [segmentTokens] using equal
      simp [Token.startsTerm] at starts

theorem readMemory_of_spelling {ts : List Token} {form : MemoryForm} (h : form.Spelling ts) :
    readMemory ts = .ok form := by
  cases h with
  | @intro size segment outer inner ts us outside within =>
    cases size with
    | some s => exact readAddress_append outside within
    | none =>
      rw [sizeTokens, List.nil_append, readMemory]
      · exact readAddress_append outside within
      · exact fun s rest => outside.ne_size segment _ s (.ptr :: rest)
      · exact fun s rest => outside.ne_size segment _ s rest

/-- The reader accepts the token lists of the grammar, and gives the form that they spell. -/
theorem readMemory_eq_ok_iff {ts : List Token} {form : MemoryForm} :
    readMemory ts = .ok form ↔ form.Spelling ts :=
  ⟨spelling_of_readMemory, readMemory_of_spelling⟩

/-- A token list spells at most one form. -/
theorem MemoryForm.Spelling.unique {ts : List Token} {form other : MemoryForm}
    (h : form.Spelling ts) (h' : other.Spelling ts) : form = other := by
  have equal := (readMemory_of_spelling h).symm.trans (readMemory_of_spelling h')
  exact Except.ok.inj equal

private theorem readPlain_ne_memory (ts : List Token) (m : MemoryOperand) :
    readPlain ts ≠ .ok (.memory m) := by
  have ends (operand : Operand) (h : ∀ m, operand ≠ .memory m) (ts : List Token) :
      readEnd operand ts ≠ .ok (.memory m) := by
    cases ts with
    | nil => simp [readEnd, h]
    | cons t ts => simp [readEnd]
  fun_cases readPlain ts <;> simp_all

/-- A memory operand is what the one form that its tokens spell denotes. -/
theorem readTokens_eq_memory {ts : List Token} {m : MemoryOperand}
    (h : readTokens ts = .ok (.memory m)) :
    ∃ form : MemoryForm, form.Spelling ts ∧ form.reference = .ok m := by
  rw [readTokens] at h
  split at h
  · cases h
  · split at h
    · cases h
    · split at h
      · split at h
        · cases h
        · next form read =>
          split at h
          · cases h
          · next reference denotes =>
            cases h
            exact ⟨form, spelling_of_readMemory read, denotes⟩
      · split at h
        · cases h
        · next operand read =>
          cases h
          exact absurd read (readPlain_ne_memory ts m)

end AsmTranslit
