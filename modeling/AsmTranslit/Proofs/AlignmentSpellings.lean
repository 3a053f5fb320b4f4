import AsmTranslit.GoSource
import AsmTranslit.Proofs.CheckedRuns
import AsmTranslit.Proofs.LineContents
import AsmTranslit.Proofs.PairedRuns

/-!
# Spellings of alignments

The number of `.align` counts bytes or is an exponent of two, by the object format, and each of the two
has a directive of its own.  Which one `.align` stands for is known only when the whole listing is, so it
is resolved in the pass over the lines and the others where they are read.  Both spellings ask for the
same alignments and fail for the same numbers, wherever they stand.
-/

namespace AsmTranslit

def isAlign (line : String) : Bool :=
  (labelParts? (lineContent line)).isNone &&
    (directiveParts? (lineContent line)).any (·.1 == ".align")

/-- A line, with another name in the place of `.align` if it is such a directive. -/
def respellAlign (name line : String) : String :=
  if isAlign line then
    String.ofList (line.toList.takeWhile isBlank ++ name.toList ++
      (trimStart line.toList).drop ".align".length)
  else line

example : respellAlign ".p2align" "\t.align 4, 0x90 # pad" = "\t.p2align 4, 0x90 # pad" := by
  decide +kernel

/-- The directive that `.align` stands for in an object format. -/
def ObjectFormat.alignName : ObjectFormat → String
  | machO => ".p2align"
  | elf => ".balign"

variable {arguments : List Char} {line other name : String}

theorem isNone_labelParts? {word : List Char} (isWord : ∀ c ∈ word, isDirectiveChar c) :
    (labelParts? ('.' :: (word ++ arguments))).isNone = (labelParts? ('.' :: arguments)).isNone := by
  have symbols : ∀ c ∈ word, isSymbolChar c := fun c member =>
    isSymbolChar_of_isDirectiveChar (isWord c member)
  have start : isSymbolStart '.' = true := by decide
  simp only [labelParts?, start, if_true, List.dropWhile_append_of_pos symbols]
  split
  case h_1 => split <;> rfl
  case h_2 => rfl

/-- The name of a directive is followed by something else. -/
theorem directiveParts?_eq_some_iff {content : List Char} :
    directiveParts? content = some (name, arguments) ↔
      ∃ word, content = '.' :: (word ++ arguments) ∧ name = String.ofList ('.' :: word) ∧ word ≠ [] ∧
        (∀ c ∈ word, isDirectiveChar c) ∧ arguments.dropWhile isDirectiveChar = arguments ∧
        '\n' ∉ arguments := by
  constructor
  · fun_cases directiveParts? content with
    | case2 cs word rest accepted =>
      intro h
      obtain ⟨rfl, rfl⟩ := Prod.mk.inj (Option.some.inj h)
      simp only [Bool.or_eq_true, not_or, Bool.not_eq_true, List.isEmpty_eq_false_iff] at accepted
      refine ⟨word, ?_, rfl, accepted.1, ?_, ?_, by simpa using accepted.2⟩
      · rw [List.takeWhile_append_dropWhile]
      · exact fun c member => List.all_eq_true.1 List.all_takeWhile c member
      · exact List.dropWhile_idempotent isDirectiveChar cs
    | _ => simp
  · rintro ⟨word, rfl, rfl, some, isWord, stop, oneLine⟩
    have none : arguments.takeWhile isDirectiveChar = [] := by
      have parts := List.takeWhile_append_dropWhile (p := isDirectiveChar) (l := arguments)
      rwa [stop, List.append_left_eq_self] at parts
    simp [directiveParts?, List.takeWhile_append_of_pos isWord, List.dropWhile_append_of_pos isWord,
      stop, none, some, oneLine]

theorem classify_of_directiveParts? (noLabel : (labelParts? (lineContent line)).isNone)
    (parts : directiveParts? (lineContent line) = some (name, arguments)) :
    classify line = (readDirective name (trim arguments)).map .directive := by
  obtain ⟨word, content, -⟩ := directiveParts?_eq_some_iff.1 parts
  have some : (lineContent line).isEmpty = false := by rw [content, List.isEmpty_cons]
  rw [Option.isNone_iff_eq_none] at noLabel
  simp [classify, classifyContent, some, noLabel, parts]

/-- A line and what it becomes with another name for its directive: both are read alike, each by its
own name, and neither tells the object format. -/
structure Respelled (name line other : String) (arguments : List Char) : Prop where
  own : classify line = (readDirective ".align" arguments).map .directive
  new : classify other = (readDirective name arguments).map .directive
  noFormat : isMachOOnly line = false
  noFormat' : isMachOOnly other = false

theorem isMachOOnly_of_directiveParts? (parts : directiveParts? (lineContent line) = some (name, arguments))
    (noSection : name ≠ ".section") (known : name ∉ machONames) : isMachOOnly line = false := by
  simp [isMachOOnly, parts, noSection, known]

private theorem respelled_respellAlign (format : ObjectFormat) (h : isAlign line) :
    ∃ arguments, Respelled format.alignName line (respellAlign format.alignName line) arguments := by
  obtain ⟨noLabel, named⟩ := Bool.and_eq_true_iff.1 h
  obtain ⟨⟨name, arguments⟩, parts, same⟩ := Option.any_eq_true _ _ |>.1 named
  obtain rfl : name = ".align" := by simpa using same
  obtain ⟨word, content, isName, someWord, isWord, stop, oneLine⟩ := directiveParts?_eq_some_iff.1 parts
  have align : ".align".length = ('.' :: word).length := by rw [isName, String.length_ofList]
  obtain ⟨new, isNew, someNew, newWord⟩ : ∃ new, format.alignName = String.ofList ('.' :: new) ∧
      new ≠ [] ∧ ∀ c ∈ new, isDirectiveChar c := by
    cases format with
    | machO => exact ⟨"p2align".toList, by decide, by decide, List.all_eq_true.1 (by decide)⟩
    | elf => exact ⟨"balign".toList, by decide, by decide, List.all_eq_true.1 (by decide)⟩
  have dotted {cs : List Char} (directive : ∀ c ∈ cs, isDirectiveChar c) :
      ∀ c ∈ '.' :: cs, isDirectiveChar c := by
    rw [List.forall_mem_cons]
    exact ⟨by decide, directive⟩
  have content' : lineContent (respellAlign format.alignName line) = '.' :: (new ++ arguments) := by
    have moved := lineContent_replace content (dotted isWord) (dotted newWord) (List.cons_ne_nil _ _)
      (List.cons_ne_nil _ _)
    rwa [respellAlign, if_pos h, align, isNew, String.toList_ofList]
  have parts' : directiveParts? (lineContent (respellAlign format.alignName line)) =
      some (format.alignName, arguments) :=
    directiveParts?_eq_some_iff.2 ⟨new, content', isNew, someNew, newWord, stop, oneLine⟩
  have noLabel' : (labelParts? (lineContent (respellAlign format.alignName line))).isNone := by
    rw [content', isNone_labelParts? newWord, ← isNone_labelParts? isWord, ← content]
    exact noLabel
  refine ⟨trim arguments, classify_of_directiveParts? noLabel parts,
    classify_of_directiveParts? noLabel' parts',
    isMachOOnly_of_directiveParts? parts (by decide) (by decide),
    isMachOOnly_of_directiveParts? parts' ?_ ?_⟩
  · cases format <;> decide
  · cases format <;> decide

theorem same_or_respelled (format : ObjectFormat) (line : String) :
    respellAlign format.alignName line = line ∨
      ∃ arguments, Respelled format.alignName line (respellAlign format.alignName line) arguments := by
  by_cases h : isAlign line
  · exact .inr (respelled_respellAlign format h)
  · exact .inl (by rw [respellAlign, if_neg h])

def alignmentNames : List String :=
  [".align", ".p2align", ".balign"]

/-- The bytes that an alignment directive asks for in an object format. -/
def alignmentBytes (format : ObjectFormat) (name : String) (arguments : List Char) :
    Except LineFault Nat := do
  let alignment ← readAlignment name arguments
  (alignment.resolve format).mapError .alignment

theorem resolve_bytes (format : ObjectFormat) (asked : Except AlignmentFault Nat) :
    (do
      let alignment ← (asked.mapError LineFault.alignment).map Alignment.bytes
      (alignment.resolve format).mapError LineFault.alignment) = asked.mapError .alignment := by
  cases asked <;> rfl

private theorem toOption_alignmentBytes (format : ObjectFormat) (arguments : List Char) :
    (alignmentBytes format format.alignName arguments).toOption =
      (alignmentBytes format ".align" arguments).toOption := by
  cases format with
  | machO =>
    simp only [alignmentBytes, readAlignment, ObjectFormat.alignName]
    cases readWord? (argumentAt 0 arguments) with
    | none => rfl
    | some n => exact congrArg Except.toOption (resolve_bytes .machO (alignmentOfExponent n))
  | elf =>
    simp only [alignmentBytes, readAlignment, ObjectFormat.alignName]
    cases readWord? (argumentAt 0 arguments) with
    | none => rfl
    | some n => exact congrArg Except.toOption (resolve_bytes .elf (alignmentOfBytes n))

variable {context : ListingContext} {state : SegmenterState} {index : Nat}

theorem readDirective_alignment (isAlignment : name ∈ alignmentNames) (arguments : List Char) :
    readDirective name arguments = (readAlignment name arguments).map .align := by
  simp only [alignmentNames, List.mem_cons, List.not_mem_nil, or_false] at isAlignment
  rcases isAlignment with rfl | rfl | rfl <;> rfl

/-- An alignment raises the pending one, or the pass ends at it. -/
theorem toOption_step_alignment (isAlignment : name ∈ alignmentNames)
    (read : classify line = (readDirective name arguments).map .directive) :
    (state.step context (line, index)).toOption =
      (alignmentBytes context.format name arguments).toOption.map fun bytes =>
        { state with pendingAlign := some (max (state.pendingAlign.getD 0) bytes) } := by
  rw [readDirective_alignment isAlignment] at read
  cases reads : readAlignment name arguments with
  | error fault =>
    rw [reads] at read
    simp only [SegmenterState.step, read, Except.map, alignmentBytes, reads]
    rfl
  | ok alignment =>
    rw [reads] at read
    simp only [SegmenterState.step, read, Except.map, SegmenterState.directive, alignmentBytes, reads,
      bind, Except.bind]
    cases alignment.resolve context.format <;> rfl

theorem alignName_mem (format : ObjectFormat) : format.alignName ∈ alignmentNames := by
  cases format <;> decide

private theorem paired_step_respellAlign (context : ListingContext) (state : SegmenterState)
    (line : String) (index : Nat) :
    Paired False Eq (state.step context (line, index))
      (state.step context (respellAlign context.format.alignName line, index)) := by
  rcases same_or_respelled context.format line with same | ⟨arguments, respelled⟩
  · rw [same]
    exact .same _
  · apply Paired.of_toOption_eq
    rw [toOption_step_alignment (alignName_mem _) respelled.new,
      toOption_step_alignment List.mem_cons_self respelled.own, toOption_alignmentBytes]

private theorem isMachOOnly_respellAlign (format : ObjectFormat) (line : String) :
    isMachOOnly (respellAlign format.alignName line) = isMachOOnly line := by
  rcases same_or_respelled format line with same | ⟨arguments, respelled⟩
  · rw [same]
  · rw [respelled.noFormat, respelled.noFormat']

/-- A line with an alignment directive is not well formed, or read as an alignment. -/
theorem classify_alignment (isAlignment : name ∈ alignmentNames)
    (read : classify line = (readDirective name arguments).map .directive) :
    (∃ fault, classify line = .error fault) ∨ ∃ a, classify line = .ok (.directive (.align a)) := by
  rw [readDirective_alignment isAlignment] at read
  cases reads : readAlignment name arguments with
  | error fault => exact .inl ⟨fault, by rw [read, reads]; rfl⟩
  | ok a => exact .inr ⟨a, by rw [read, reads]; rfl⟩

theorem declaredRoutine?_alignment (isAlignment : name ∈ alignmentNames)
    (read : classify line = (readDirective name arguments).map .directive) :
    declaredRoutine? line = none := by
  rcases classify_alignment isAlignment read with ⟨fault, bad⟩ | ⟨a, good⟩
  · simp [declaredRoutine?, bad]
  · simp [declaredRoutine?, good]

private theorem declaredRoutine?_respellAlign (format : ObjectFormat) (line : String) :
    declaredRoutine? (respellAlign format.alignName line) = declaredRoutine? line := by
  rcases same_or_respelled format line with same | ⟨arguments, respelled⟩
  · rw [same]
  · rw [declaredRoutine?_alignment (alignName_mem format) respelled.new,
      declaredRoutine?_alignment List.mem_cons_self respelled.own]

private theorem ListingContext.ofLines_map_respellAlign (format : ObjectFormat) (lines : List String) :
    ListingContext.ofLines (lines.map (respellAlign format.alignName)) =
      ListingContext.ofLines lines := by
  simp only [ListingContext.ofLines, declaredRoutines, ObjectFormat.ofLines, List.filterMap_map,
    List.any_map, Function.comp_def, declaredRoutine?_respellAlign, isMachOOnly_respellAlign]

private theorem Segmentation.paired_respellAlign (lines : List String) :
    Paired False Eq (Segmentation.ofLines lines)
      (Segmentation.ofLines (lines.map (respellAlign (ObjectFormat.ofLines lines).alignName))) := by
  simp only [Segmentation.ofLines, ListingContext.ofLines_map_respellAlign, List.zipIdx_map,
    List.foldlM_map, List.length_map]
  apply (Paired.foldlM_eq _ _ _).bind_eq
  · exact fun state => .same _
  · rintro state ⟨line, index⟩
    exact paired_step_respellAlign (ListingContext.ofLines lines) state line index

/-- Two lines that are one, or both alignments. -/
def SameButAlignment (line other : String) : Prop :=
  other = line ∨ ∃ a b, classify line = .ok (.directive (.align a)) ∧
    classify other = .ok (.directive (.align b))

namespace SameButAlignment

variable (same : SameButAlignment line other)

include same

theorem instruction?_eq : instruction? other = instruction? line := by
  rcases same with rfl | ⟨a, b, own, new⟩
  · rfl
  · simp [instruction?, own, new]

private theorem lineGroup_eq (context : BodyContext) (last : Option Nat) (index : Nat) :
    lineGroup context last (other, index) = lineGroup context last (line, index) := by
  rcases same with rfl | ⟨a, b, own, new⟩
  · rfl
  · simp [lineGroup, own, new]

private theorem definedLabels_cons (routine : String) (seen : List String)
    {body others : List (String × Nat)}
    (later : ∀ seen, definedLabels routine seen others = definedLabels routine seen body) :
    definedLabels routine seen ((other, index) :: others) =
      definedLabels routine seen ((line, index) :: body) := by
  rcases same with rfl | ⟨a, b, own, new⟩
  · simp only [definedLabels, later]
  · have noLabel : label? line = none := by simp [label?, own]
    have noLabel' : label? other = none := by simp [label?, new]
    simp only [definedLabels, noLabel, noLabel', later]

end SameButAlignment

theorem Segment.body_map (segment : Segment) (f : String → String) (lines : List String) :
    segment.body (lines.map f) = (segment.body lines).map (Prod.map f id) := by
  simp only [Segment.body, List.length_map]
  split
  case isTrue => rw [← List.map_drop, ← List.map_take, List.zipIdx_map]
  case isFalse => rfl

theorem Segment.fst_mem_of_mem_body {segment : Segment} {lines : List String} {entry : String × Nat}
    (member : entry ∈ segment.body lines) : entry.1 ∈ lines := by
  rw [Segment.body] at member
  split at member
  case isTrue => exact List.mem_of_mem_drop (List.mem_of_mem_take (List.fst_mem_of_mem_zipIdx member))
  case isFalse => cases member

section Routines

variable {f : String → String} {lines : List String} {body : List (String × Nat)}

private theorem definedLabels_map (same : ∀ entry ∈ body, SameButAlignment entry.1 (f entry.1))
    (routine : String) (seen : List String) :
    definedLabels routine seen (body.map (Prod.map f id)) = definedLabels routine seen body := by
  induction body generalizing seen with
  | nil => rfl
  | cons entry body ih =>
    have later := ih fun other member => same other (List.mem_cons_of_mem entry member)
    exact (same entry List.mem_cons_self).definedLabels_cons routine seen later

theorem filterMap_instruction?_map (same : ∀ entry ∈ body, SameButAlignment entry.1 (f entry.1)) :
    (body.map (Prod.map f id)).filterMap (fun line => instruction? line.1) =
      body.filterMap fun line => instruction? line.1 := by
  rw [List.filterMap_map]
  exact List.filterMap_congr fun entry member => (same entry member).instruction?_eq

private theorem lastInstruction?_map (same : ∀ entry ∈ body, SameButAlignment entry.1 (f entry.1)) :
    lastInstruction? (body.map (Prod.map f id)) = lastInstruction? body := by
  have kept : body.filter ((fun line => (instruction? line.1).isSome) ∘ Prod.map f id) =
      body.filter fun line => (instruction? line.1).isSome := by
    apply List.filter_congr
    intro entry member
    exact congrArg Option.isSome (same entry member).instruction?_eq
  rw [lastInstruction?, lastInstruction?, List.filter_map, kept, List.getLast?_map, Option.map_map]
  rfl

variable (same : ∀ line ∈ lines, SameButAlignment line (f line))

include same

theorem RoutineBody.ofSegment_map (segment : Segment) (tables : List DataTable) :
    ofSegment segment (lines.map f) tables = ofSegment segment lines tables := by
  have inBody : ∀ entry ∈ segment.body lines, SameButAlignment entry.1 (f entry.1) :=
    fun entry member => same entry.1 (Segment.fst_mem_of_mem_body member)
  have groups (context : BodyContext) (last : Option Nat) :
      ((segment.body lines).map (Prod.map f id)).mapM (lineGroup context last) =
        (segment.body lines).mapM (lineGroup context last) := by
    rw [List.mapM_map]
    exact mapM_congr fun entry member => (inBody entry member).lineGroup_eq context last entry.2
  simp only [ofSegment, Segment.body_map, definedLabels_map inBody, branchTexts,
    filterMap_instruction?_map inBody, lastInstruction?_map inBody, groups]

theorem RoutineUnit.ofSegment_map (options : Options) (tables : List DataTable) (segment : Segment) :
    ofSegment options (lines.map f) tables segment = ofSegment options lines tables segment := by
  have inBody : ∀ entry ∈ segment.body lines, SameButAlignment entry.1 (f entry.1) :=
    fun entry member => same entry.1 (Segment.fst_mem_of_mem_body member)
  have correlation : correlate options.policy segment (lines.map f) tables =
      correlate options.policy segment lines tables := by
    simp only [correlate, referencedTables, Segment.body_map, filterMap_instruction?_map inBody]
  simp only [ofSegment, correlation, RoutineBody.ofSegment_map same]

end Routines

/-- Every line of a listing that has routines and tables is well formed. -/
theorem Segmentation.exists_classify {lines : List String} {segmentation : Segmentation}
    (h : Segmentation.ofLines lines = .ok segmentation) :
    ∀ line ∈ lines, ∃ read, classify line = .ok read := by
  obtain ⟨state, run, -⟩ := bind_eq_ok_iff.1 h
  apply foldlM_zipIdx_invariant (P := fun done _ => ∀ line ∈ done, ∃ read, classify line = .ok read) _
    (List.forall_mem_nil _) run
  intro done line before after earlier step other member
  rcases List.mem_append.1 member with old | here
  · exact earlier other old
  · obtain rfl := List.mem_singleton.1 here
    cases read : classify other with
    | ok content => exact ⟨content, rfl⟩
    | error fault => simp [SegmenterState.step, read] at step

private theorem sameButAlignment_respellAlign (format : ObjectFormat)
    (own : ∃ read, classify line = .ok read)
    (new : ∃ read, classify (respellAlign format.alignName line) = .ok read) :
    SameButAlignment line (respellAlign format.alignName line) := by
  rcases same_or_respelled format line with same | ⟨arguments, respelled⟩
  · exact .inl same
  · obtain ⟨read, isRead⟩ := own
    obtain ⟨read', isRead'⟩ := new
    rcases classify_alignment List.mem_cons_self respelled.own with ⟨fault, bad⟩ | ⟨a, good⟩
    · simp [isRead] at bad
    · rcases classify_alignment (alignName_mem format) respelled.new with ⟨fault, bad⟩ | ⟨b, good'⟩
      · simp [isRead'] at bad
      · exact .inr ⟨a, b, good, good'⟩

/-- The directive `.align` means what the object format says, wherever it stands.  With every `.align`
of a listing replaced by `.p2align` if some line is one of Mach-O alone, and by `.balign` otherwise, the
listing can be written if it could before, and then the whole result is the same. -/
theorem GoSource.ofLines_respellAlign (options : Options) (lines : List String) :
    (ofLines options (lines.map
      (respellAlign (if lines.any isMachOOnly then ".p2align" else ".balign")))).toOption =
      (ofLines options lines).toOption := by
  have spelling : (if lines.any isMachOOnly then ".p2align" else ".balign") =
      (ObjectFormat.ofLines lines).alignName := by
    rw [ObjectFormat.ofLines]
    split <;> rfl
  rw [spelling]
  apply Paired.toOption_eq
  simp only [ofLines]
  apply (Segmentation.paired_respellAlign lines).remember.remember_second.bind
  rintro segmentation _ ⟨segmented', segmented, rfl⟩
  have same : ∀ line ∈ lines, SameButAlignment line
      (respellAlign (ObjectFormat.ofLines lines).alignName line) := by
    intro line member
    exact sameButAlignment_respellAlign _ (Segmentation.exists_classify segmented line member)
      (Segmentation.exists_classify segmented' _ (List.mem_map_of_mem member))
  have routines := funext (RoutineUnit.ofSegment_map same options segmentation.tables)
  rw [routines]
  exact .same _

end AsmTranslit
