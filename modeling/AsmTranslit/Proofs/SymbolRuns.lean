import AsmTranslit.Proofs.WholeSymbols

/-!
# Runs of symbol characters

The maximal runs of symbol characters in a text, found by cutting the text at all its other
characters.  A run is a part of the text that stands by itself and consists of symbol characters.  The
search for a symbol finds it exactly if it is one of the runs: a match that the search goes on behind,
as for `.L.L` in `.L.L.L`, never hides one.
-/

namespace AsmTranslit

def symbolPieces (cs : List Char) : List (List Char) :=
  pieces (fun _ _ => ()) (fun _ c => !isSymbolChar c) () cs

/-- The maximal runs of symbol characters in a text, in order. -/
def symbolRuns (text : String) : List String :=
  ((symbolPieces text.toList).filter (!·.isEmpty)).map String.ofList

example : symbolRuns "lea rax, [rip+.L.L.L×_f@PLT]" = ["lea", "rax", "rip", ".L.L.L", "_f@PLT"] := by
  decide +kernel

variable {part cs front back : List Char} {c : Char} {text symbol : String}

theorem symbolPieces_cons_of_not_isSymbolChar (cuts : isSymbolChar c = false) (cs : List Char) :
    symbolPieces (c :: cs) = [] :: symbolPieces cs := by
  simp [symbolPieces, pieces, cuts]

theorem symbolPieces_cons_of_isSymbolChar (goesOn : isSymbolChar c) (cs : List Char) :
    ∃ first rest, symbolPieces cs = first :: rest ∧ symbolPieces (c :: cs) = (c :: first) :: rest := by
  obtain ⟨first, rest, split⟩ := List.exists_cons_of_ne_nil
    (pieces_ne_nil (fun _ _ => ()) (fun _ c => !isSymbolChar c) () cs)
  refine ⟨first, rest, split, ?_⟩
  simp [symbolPieces, pieces, goesOn, split]

theorem symbolPieces_append_cons (cuts : isSymbolChar c = false) (front back : List Char) :
    symbolPieces (front ++ c :: back) = symbolPieces front ++ symbolPieces back := by
  induction front with
  | nil => exact symbolPieces_cons_of_not_isSymbolChar cuts back
  | cons d front ih =>
    cases mark : isSymbolChar d with
    | false =>
      rw [List.cons_append, symbolPieces_cons_of_not_isSymbolChar mark,
        symbolPieces_cons_of_not_isSymbolChar mark, ih, List.cons_append]
    | true =>
      obtain ⟨first, rest, split, longer⟩ := symbolPieces_cons_of_isSymbolChar mark front
      obtain ⟨first', rest', split', longer'⟩ :=
        symbolPieces_cons_of_isSymbolChar mark (front ++ c :: back)
      rw [ih, split, List.cons_append] at split'
      obtain ⟨rfl, rfl⟩ := List.cons.inj split'
      rw [List.cons_append, longer', longer, List.cons_append]

private theorem isSymbolChar_of_mem_symbolPieces (member : part ∈ symbolPieces cs) :
    ∀ c ∈ part, isSymbolChar c := by
  induction cs generalizing part with
  | nil =>
    obtain rfl : part = [] := by simpa [symbolPieces, pieces] using member
    simp
  | cons d cs ih =>
    cases mark : isSymbolChar d with
    | false =>
      rw [symbolPieces_cons_of_not_isSymbolChar mark] at member
      obtain rfl | later := List.mem_cons.1 member
      · simp
      · exact ih later
    | true =>
      obtain ⟨first, rest, split, longer⟩ := symbolPieces_cons_of_isSymbolChar mark cs
      rw [longer] at member
      rw [split] at ih
      obtain rfl | later := List.mem_cons.1 member
      · exact List.forall_mem_cons.2 ⟨mark, ih (List.mem_cons_self ..)⟩
      · exact ih (List.mem_cons_of_mem first later)

private theorem mem_symbolPieces_of_standsIn (characters : ∀ c ∈ part, isSymbolChar c)
    (stands : StandsIn part cs) : part ∈ symbolPieces cs := by
  obtain ⟨front, back, rfl, before, after⟩ := stands
  have uncut : symbolPieces part = [part] := pieces_of_forall fun c member => by simp [characters c member]
  have start : part ∈ symbolPieces (part ++ back) := by
    cases back with
    | nil => simp [uncut]
    | cons d back =>
      rw [symbolPieces_append_cons after, uncut]
      exact List.mem_append_left _ (List.mem_singleton_self part)
  cases last : front.getLast? with
  | none =>
    obtain rfl := List.getLast?_eq_none_iff.1 last
    exact start
  | some d =>
    obtain ⟨front, rfl⟩ := List.getLast?_eq_some_iff.1 last
    rw [last] at before
    rw [List.append_assoc, List.append_assoc, List.singleton_append, symbolPieces_append_cons before]
    exact List.mem_append_right _ start

theorem mem_symbolRuns_iff :
    symbol ∈ symbolRuns text ↔ symbol ≠ "" ∧ (∀ c ∈ symbol.toList, isSymbolChar c) ∧
      StandsIn symbol.toList text.toList := by
  have noSymbolCut (state : Unit) (c : Char) (cuts : (!isSymbolChar c) = true) :
      isSymbolChar c = false := by simpa using cuts
  rw [symbolRuns, List.mem_map]
  constructor
  · rintro ⟨part, inFilter, rfl⟩
    obtain ⟨member, some⟩ := List.mem_filter.1 inFilter
    rw [String.toList_ofList]
    exact ⟨by simpa using some, isSymbolChar_of_mem_symbolPieces member,
      standsIn_piece noSymbolCut member⟩
  · rintro ⟨some, characters, stands⟩
    refine ⟨symbol.toList, List.mem_filter.2 ⟨mem_symbolPieces_of_standsIn characters stands, ?_⟩,
      String.ofList_toList⟩
    simpa using some

/-- What the search finds stands by itself, whatever characters it looks for. -/
theorem standing_of_mentionsAfter {before : Option Char} {s : Char} {ss cs : List Char}
    (found : mentionsAfter before s ss cs) :
    ∃ front back, cs = front ++ (s :: ss) ++ back ∧ joins (front.getLast?.or before) = false ∧
      joins back.head? = false := by
  fun_induction mentionsAfter before s ss cs with
  | case1 => simp at found
  | case2 before c cs fits after ih =>
    have here : c :: cs = s :: ss ++ after := by
      obtain ⟨back, split⟩ := List.isPrefixOf_iff_prefix.1 fits
      obtain ⟨rfl, rfl⟩ := List.cons.inj split
      simp [after]
    obtain free | later := Bool.or_eq_true_iff.1 found
    · obtain ⟨apart, ends⟩ := Bool.and_eq_true_iff.1 free
      exact ⟨[], after, here, by simpa using apart, by simpa using ends⟩
    · obtain ⟨front, back, split, apart, ends⟩ := ih later
      refine ⟨s :: ss ++ front, back, ?_, ?_, ends⟩
      · rw [here, split]
        simp only [List.append_assoc]
      · rwa [List.getLast?_append, Option.or_assoc, List.getLast?_cons, Option.some_or,
          ← List.getLast?_cons]
  | case3 before c cs noMatch ih =>
    obtain ⟨front, back, split, apart, ends⟩ := ih found
    refine ⟨c :: front, back, by simp [split], ?_, ends⟩
    rwa [List.getLast?_cons, Option.some_or, ← Option.or_some]

private theorem standsIn_of_mentions (found : mentions text symbol) :
    StandsIn symbol.toList text.toList := by
  rw [mentions] at found
  split at found
  case h_1 => simp at found
  case h_2 s ss named =>
    obtain ⟨front, back, split, apart, ends⟩ := standing_of_mentionsAfter found
    rw [Option.or_none] at apart
    rw [named]
    exact ⟨front, back, split, apart, ends⟩

/-- A symbol is mentioned exactly if it is one of the maximal runs of symbol characters. -/
theorem mentions_iff_mem_symbolRuns (some : symbol ≠ "")
    (characters : ∀ c ∈ symbol.toList, isSymbolChar c) :
    mentions text symbol ↔ symbol ∈ symbolRuns text := by
  have nonempty : symbol.toList ≠ [] := by simpa using some
  constructor
  · intro found
    exact mem_symbolRuns_iff.2 ⟨some, characters, standsIn_of_mentions found⟩
  · intro member
    obtain ⟨-, -, stands⟩ := mem_symbolRuns_iff.1 member
    exact mentions_of_standsIn nonempty characters stands

/-- Two overlapping matches are no symbol; one between letters that no symbol has is. -/
theorem mentions_iff_mem_symbolRuns_overlapping :
    symbolRuns ".L.L.L" = [".L.L.L"] ∧ ¬mentions ".L.L.L" ".L.L" ∧
    symbolRuns ".L.L.L é.L.Lé" = [".L.L.L", ".L.L"] ∧ mentions ".L.L.L é.L.Lé" ".L.L" := by
  have some : ".L.L" ≠ "" := by decide
  have characters : ∀ c ∈ ".L.L".toList, isSymbolChar c := List.all_eq_true.1 (by decide)
  have joined : symbolRuns ".L.L.L" = [".L.L.L"] := by decide +kernel
  have apart : symbolRuns ".L.L.L é.L.Lé" = [".L.L.L", ".L.L"] := by decide +kernel
  refine ⟨joined, ?_, apart, ?_⟩
  · rw [mentions_iff_mem_symbolRuns some characters, joined]
    decide
  · rw [mentions_iff_mem_symbolRuns some characters, apart]
    decide

end AsmTranslit
