import AsmTranslit.Proofs.TableContents

/-!
# Pending alignments

Every alignment that a line asks for is a power of two, and so is the greatest of several.  Hence the
alignment that is pending is one wherever the pass over a listing stands, no table is ever padded to
a multiple of zero, and zeros up to the greatest alignment suffice for all of them.
-/

namespace AsmTranslit

variable {format : ObjectFormat} {lines done before since : List String} {line name : String}
  {arguments : List Char} {alignment : Alignment} {bytes index : Nat}

theorem isPowerOfTwo_of_exponent {exponent : Nat} (h : alignmentOfExponent exponent = .ok bytes) :
    bytes.isPowerOfTwo := by
  rw [alignmentOfExponent] at h
  split at h
  case isTrue =>
    obtain rfl := Except.ok.inj h
    exact ⟨exponent, rfl⟩
  case isFalse => cases h

theorem isPowerOfTwo_of_bytes {count : Nat} (h : alignmentOfBytes count = .ok bytes) :
    bytes.isPowerOfTwo := by
  rw [alignmentOfBytes] at h
  split at h
  case isTrue power =>
    obtain rfl := Except.ok.inj h
    exact ⟨count.log2, power⟩
  case isFalse => cases h

/-- An alignment is checked where it is read, or where the object format is known. -/
theorem isPowerOfTwo_resolve (reads : readAlignment name arguments = .ok alignment)
    (resolves : alignment.resolve format = .ok bytes) : bytes.isPowerOfTwo := by
  rw [readAlignment] at reads
  split at reads
  case h_1 => cases reads
  case h_2 n _ =>
    split at reads
    case h_1 =>
      obtain ⟨count, checked, rfl⟩ := map_eq_ok_iff.1 reads
      obtain rfl := Except.ok.inj resolves
      exact isPowerOfTwo_of_exponent (mapError_eq_ok_iff.1 checked)
    case h_2 =>
      obtain ⟨count, checked, rfl⟩ := map_eq_ok_iff.1 reads
      obtain rfl := Except.ok.inj resolves
      exact isPowerOfTwo_of_bytes (mapError_eq_ok_iff.1 checked)
    case h_3 =>
      obtain rfl := Except.ok.inj reads
      cases format with
      | machO => exact isPowerOfTwo_of_exponent resolves
      | elf => exact isPowerOfTwo_of_bytes resolves

private theorem readAlignment_of_readDirective
    (h : readDirective name arguments = .ok (.align alignment)) :
    readAlignment name arguments = .ok alignment := by
  rw [readDirective.eq_def] at h
  split at h
  case h_15 | h_16 | h_17 =>
    obtain ⟨same, reads, aligned⟩ := map_eq_ok_iff.1 h
    rwa [Directive.align.inj aligned] at reads
  case h_18 =>
    split at h
    case isTrue => cases h
    case isFalse => split at h <;> cases h
  all_goals cases h

theorem isPowerOfTwo_of_alignment? (asks : alignment? format line = some bytes) :
    bytes.isPowerOfTwo := by
  revert asks
  fun_cases alignment? format line with
  | case1 alignment read =>
    intro asks
    obtain ⟨name, arguments, -, reads⟩ := directiveParts?_of_classify read
    have resolves : alignment.resolve format = .ok bytes := by
      cases resolved : alignment.resolve format with
      | error fault => simp [resolved, Except.toOption] at asks
      | ok count => simpa [resolved, Except.toOption] using asks
    exact isPowerOfTwo_resolve (readAlignment_of_readDirective reads) resolves
  | case2 => simp

theorem isPowerOfTwo_alignmentBefore (h : alignmentBefore format lines index = some bytes) :
    bytes.isPowerOfTwo := by
  obtain ⟨line, -, asks⟩ := List.mem_filterMap.1 (List.max?_mem h)
  exact isPowerOfTwo_of_alignment? asks

/-- No alignment of lines that drop none is greater than the one behind them. -/
theorem exists_alignmentBefore_ge (before : List String)
    (keeps : ∀ line ∈ since, dropsAlignment line = false) (member : line ∈ since)
    (asks : alignment? format line = some bytes) :
    ∃ align, alignmentBefore format (before ++ since) (before ++ since).length = some align ∧
      bytes ≤ align := by
  have counts : line ∈ (before ++ since).rtakeWhile (!dropsAlignment ·) := by
    rw [List.rtakeWhile, List.reverse_append, List.takeWhile_append_of_pos]
    · simp [member]
    · simpa using keeps
  have asked : bytes ∈ ((before ++ since).rtakeWhile (!dropsAlignment ·)).filterMap (alignment? format) :=
    List.mem_filterMap.2 ⟨line, counts, asks⟩
  obtain ⟨align, greatest⟩ := Option.isSome_iff_exists.1 (List.isSome_max?_of_mem asked)
  refine ⟨align, ?_, (List.max?_eq_some_iff.1 greatest).2 bytes asked⟩
  rw [alignmentBefore, List.take_length, greatest]

private theorem isPowerOfTwo_max {m n : Nat} (first : m.isPowerOfTwo) (second : n.isPowerOfTwo) :
    (max m n).isPowerOfTwo := by
  rcases Nat.le_total m n with le | le
  · rwa [Nat.max_eq_right le]
  · rwa [Nat.max_eq_left le]

private theorem dvd_of_le_of_isPowerOfTwo {m n : Nat} (first : m.isPowerOfTwo) (second : n.isPowerOfTwo)
    (le : m ≤ n) : m ∣ n := by
  obtain ⟨i, rfl⟩ := first
  obtain ⟨j, rfl⟩ := second
  exact Nat.pow_dvd_pow 2 ((Nat.pow_le_pow_iff_right (by decide)).1 le)

namespace TableBuilder

private theorem size_padTo (builder : TableBuilder) (align : Nat) :
    (builder.padTo align).size = builder.size + (align - builder.size % align) % align := by
  rw [size_eq_length_bytes, bytes_padTo, List.length_append, List.length_replicate, fewestZeros_eq,
    size_eq_length_bytes]

private theorem dvd_size_padTo (builder : TableBuilder) {align : Nat} (positive : 0 < align) :
    align ∣ (builder.padTo align).size := by
  have bound := Nat.mod_lt builder.size positive
  rw [size_padTo, Nat.dvd_iff_mod_eq_zero, ← Nat.mod_add_mod]
  rcases Nat.eq_zero_or_pos (builder.size % align) with aligned | rest
  · simp [aligned]
  · rw [Nat.mod_eq_of_lt (by omega : align - builder.size % align < align),
      Nat.add_sub_cancel' (Nat.le_of_lt bound), Nat.mod_self]

/-- Fewer zeros are put behind the image than the alignment has bytes. -/
theorem exists_zeros_padTo (builder : TableBuilder) {align : Nat} (positive : 0 < align) :
    ∃ zeros < align, (builder.padTo align).bytes = builder.bytes ++ List.replicate zeros 0 := by
  refine ⟨fewestZeros align builder.bytes.length, ?_, bytes_padTo builder align⟩
  rw [fewestZeros_eq]
  exact Nat.mod_lt _ positive

end TableBuilder

namespace SegmenterState

variable {context : ListingContext} {state next : SegmenterState}

/-- What a line does to the alignment that is pending. -/
inductive PendingStep (format : ObjectFormat) (line : String) (state next : SegmenterState) : Prop
  | kept (pending : next.pendingAlign = state.pendingAlign)
  | dropped (pending : next.pendingAlign = none)
  | raised {bytes : Nat} (asks : alignment? format line = some bytes)
    (pending : next.pendingAlign = some (max (state.pendingAlign.getD 0) bytes))

@[simp] theorem closeTable_pendingAlign (state : SegmenterState) :
    state.closeTable.pendingAlign = state.pendingAlign := by
  fun_cases closeTable state <;> rfl

@[simp] theorem closeRoutine_pendingAlign (state : SegmenterState) (index : Nat) :
    (state.closeRoutine index).pendingAlign = state.pendingAlign :=
  (closeRoutine_tables state index).2.2

private theorem pendingStep_label (h : state.label context index line name = .ok next) :
    PendingStep format line state next := by
  revert h
  fun_cases label context state index line name with
  | case1 =>
    fun_cases openRoutine state index line name with
    | case1 => simp
    | case2 closed =>
      intro h
      obtain rfl := Except.ok.inj h
      exact .kept (by simp [closed])
  | case2 =>
    intro h
    obtain rfl := Except.ok.inj h
    exact .kept rfl
  | case3 =>
    fun_cases openTable state index line name with
    | case1 => simp
    | case2 =>
      intro h
      obtain rfl := Except.ok.inj h
      exact .dropped rfl
  | case4 =>
    intro h
    obtain rfl := Except.ok.inj h
    exact .kept (closeTable_pendingAlign state)
  | case5 =>
    intro h
    obtain rfl := Except.ok.inj h
    exact .kept (closeTable_pendingAlign state)

private theorem pendingStep_data {arguments : String}
    (h : state.data index line name arguments = .ok next) : PendingStep format line state next := by
  revert h
  fun_cases data state index line name arguments with
  | case1 => simp
  | case2 => simp
  | case3 =>
    intro h
    obtain rfl := Except.ok.inj h
    exact .dropped rfl
  | case4 =>
    intro h
    obtain rfl := Except.ok.inj h
    exact .kept rfl

private theorem pendingStep_directive {d : Directive}
    (h : state.directive context index line d = .ok next)
    (read : classify line = .ok (.directive d)) : PendingStep context.format line state next := by
  revert h
  fun_cases directive context state index line d with
  | case1 kind =>
    intro h
    obtain rfl := Except.ok.inj h
    exact .dropped rfl
  | case5 alignment fault => simp
  | case6 alignment bytes resolved =>
    intro h
    obtain rfl := Except.ok.inj h
    exact .raised (by simp [alignment?, read, resolved, Except.toOption]) rfl
  | case7 => exact pendingStep_data
  | case4 =>
    intro h
    obtain rfl := Except.ok.inj h
    refine .kept ?_
    split <;> simp
  | _ =>
    intro h
    obtain rfl := Except.ok.inj h
    exact .kept (by simp)

private theorem pendingStep_step (h : state.step context (line, index) = .ok next) :
    PendingStep context.format line state next := by
  cases read : classify line with
  | error fault => simp [step, read] at h
  | ok kind =>
    cases kind with
    | blank =>
      simp only [step, read] at h
      obtain rfl := Except.ok.inj h
      exact .kept rfl
    | label name =>
      simp only [step, read] at h
      exact pendingStep_label h
    | directive d =>
      simp only [step, read] at h
      exact pendingStep_directive h read
    | instruction text =>
      simp only [step, read] at h
      split at h
      case isTrue =>
        obtain rfl := Except.ok.inj h
        exact .kept rfl
      case isFalse => cases h

theorem PendingStep.isPowerOfTwo (step : PendingStep format line state next)
    (power : ∀ align, state.pendingAlign = some align → align.isPowerOfTwo) {align : Nat}
    (pending : next.pendingAlign = some align) : align.isPowerOfTwo := by
  cases step with
  | kept same => exact power align (same.symm.trans pending)
  | dropped none => cases none.symm.trans pending
  | raised asks raised =>
    obtain rfl := Option.some.inj (raised.symm.trans pending)
    have asked := isPowerOfTwo_of_alignment? asks
    cases earlier : state.pendingAlign with
    | none => simpa using asked
    | some first => exact isPowerOfTwo_max (power first earlier) asked

/-- A state that the pass over a listing reaches, and the lines that have been read then. -/
structure Reached (lines done : List String) (state : SegmenterState) : Prop where
  isPrefix : done <+: lines
  run : done.zipIdx.foldlM (step (.ofLines lines)) {} = .ok state

theorem Reached.tracksTables (reached : Reached lines done state) :
    TracksTables (.ofLines lines) done state :=
  tracksTables_run reached.run

theorem Reached.isPowerOfTwo_pending (reached : Reached lines done state) {align : Nat}
    (pending : state.pendingAlign = some align) : align.isPowerOfTwo := by
  have keep (done : List String) (line : String) (state next : SegmenterState)
      (power : ∀ align, state.pendingAlign = some align → align.isPowerOfTwo)
      (h : state.step (.ofLines lines) (line, done.length) = .ok next) :
      ∀ align, next.pendingAlign = some align → align.isPowerOfTwo :=
    fun _ => (pendingStep_step h).isPowerOfTwo power
  have start : ∀ align, ({} : SegmenterState).pendingAlign = some align → align.isPowerOfTwo := by
    simp
  have run : (done.zipIdx ([] : List String).length).foldlM (step (.ofLines lines)) {} = .ok state :=
    reached.run
  exact foldlM_zipIdx_invariant keep start run align pending

/-- The open table is the last of those that the lines have, and has not ended. -/
theorem Reached.exists_openTable (reached : Reached lines done state) {builder : TableBuilder}
    (opened : state.table = some builder) :
    ∃ entry ∈ tableLabels done, TableUpTo (.ofLines lines) false done entry builder.finish := by
  obtain ⟨closed, open?, labels, -, current⟩ := reached.tracksTables.tables
  rw [openTable?, opened] at current
  cases current with
  | @some entry _ upTo => exact ⟨entry, by simp [labels], upTo⟩

private theorem Reached.isPowerOfTwo_table (reached : Reached lines done state) {builder : TableBuilder}
    (opened : state.table = some builder) : builder.align.isPowerOfTwo := by
  obtain ⟨entry, -, upTo⟩ := reached.exists_openTable opened
  have align : builder.align = (alignmentBefore (.ofLines lines) done entry.2).getD 1 := upTo.align
  rw [align]
  cases asked : alignmentBefore (.ofLines lines) done entry.2 with
  | none => exact ⟨0, rfl⟩
  | some bytes => exact isPowerOfTwo_alignmentBefore asked

theorem Reached.noSwitch (reached : Reached lines (before ++ since) state) {builder : TableBuilder}
    (opened : state.table = some builder) (noLabel : ∀ line ∈ since, label? line = none) :
    ∀ line ∈ since, switchKind? line = none := by
  obtain ⟨entry, member, upTo⟩ := reached.exists_openTable opened
  obtain ⟨text, read, starts⟩ := mem_sectionLabels.1 member
  have isLabel : label? text = some entry.1 := by
    rw [tableLabel?] at starts
    split at starts
    case isTrue => exact starts
    case isFalse => cases starts
  have inFront : entry.2 < before.length := by
    apply Nat.lt_of_not_le
    intro behind
    rw [List.getElem?_append_right behind] at read
    cases (noLabel text (List.mem_of_getElem? read)).symm.trans isLabel
  have goesOn := upTo.ends
  rw [tableEnded, List.drop_append_of_le_length inFront, List.any_append, Bool.or_eq_false_iff] at goesOn
  intro line inSince
  have plain := List.any_eq_false.1 goesOn.2 line inSince
  simp_all [endsTable]

/-- What is pending is a multiple of all alignments since the last label or data. -/
theorem Reached.exists_pending_dvd (reached : Reached lines (before ++ since) state)
    {builder : TableBuilder} (opened : state.table = some builder)
    (noneSince : ∀ line ∈ since, label? line = none ∧ data? line = none) (member : line ∈ since)
    (asks : alignment? (.ofLines lines) line = some bytes) :
    ∃ align, state.pendingAlign = some align ∧ bytes ∣ align := by
  have tracks := reached.tracksTables
  have noSwitch := reached.noSwitch opened fun line member => (noneSince line member).1
  have keeps : ∀ line ∈ since, dropsAlignment line = false := by
    intro line member
    simp [dropsAlignment, noSwitch line member, noneSince line member]
  obtain ⟨align, before, le⟩ := exists_alignmentBefore_ge before keeps member asks
  refine ⟨align, ?_, ?_⟩
  · rw [tracks.pending (tracks.inData (by simp [opened])), before]
  · exact dvd_of_le_of_isPowerOfTwo (isPowerOfTwo_of_alignment? asks)
      (isPowerOfTwo_alignmentBefore before) le

def dataWith (pad : TableBuilder → Nat → TableBuilder) (state : SegmenterState) (index : Nat)
    (text name arguments : String) : Except Failure SegmenterState :=
  match state.area with
  | .readOnlyData =>
    match state.table with
    | none => .error (state.failure index text .unlabelledData)
    | some builder =>
      let padded := match state.pendingAlign with
        | some align => pad builder align
        | none => builder
      match padded.define name arguments with
      | (_, some fault) => .error (state.failure index text (.data builder.label fault))
      | (defined, none) => .ok { state with table := some defined, pendingAlign := none }
  | _ => .ok state

/-- A step that pads in a way that is given; data alone is padded. -/
def stepWith (pad : TableBuilder → Nat → TableBuilder) (context : ListingContext)
    (state : SegmenterState) (line : String × Nat) : Except Failure SegmenterState :=
  match data? line.1 with
  | some (name, arguments) => state.dataWith pad line.2 line.1 name arguments
  | none => state.step context line

private theorem stepWith_padTo (context : ListingContext) (state : SegmenterState) (line : String × Nat) :
    state.stepWith TableBuilder.padTo context line = state.step context line := by
  fun_cases stepWith TableBuilder.padTo context state line with
  | case1 name arguments isData =>
    simp only [step, data?_eq_some_iff.1 isData, directive]
    rfl
  | case2 => rfl

private theorem dataWith_congr {pad pad' : TableBuilder → Nat → TableBuilder} (index : Nat)
    (text name arguments : String)
    (same : ∀ builder align, state.pendingAlign = some align → pad builder align = pad' builder align) :
    state.dataWith pad index text name arguments = state.dataWith pad' index text name arguments := by
  cases pending : state.pendingAlign with
  | none => simp only [dataWith, pending]
  | some align => simp only [dataWith, pending, same _ align pending]

private theorem stepWith_congr {pad pad' : TableBuilder → Nat → TableBuilder} (context : ListingContext)
    (line : String × Nat)
    (same : ∀ builder align, state.pendingAlign = some align → pad builder align = pad' builder align) :
    state.stepWith pad context line = state.stepWith pad' context line := by
  cases isData : data? line.1 with
  | none => simp only [stepWith, isData]
  | some entry => simp only [stepWith, isData, dataWith_congr _ _ _ _ same]

/-- What holds of the alignments wherever the pass over a listing stands. -/
structure AlignmentsDefined (lines done : List String) (state : SegmenterState) : Prop where
  pending : ∀ align, state.pendingAlign = some align → align.isPowerOfTwo
  table : ∀ builder, state.table = some builder → builder.align.isPowerOfTwo
  /-- No line pads to a multiple of zero, so it does not matter what that would be. -/
  nonzero : ∀ pad : TableBuilder → Nat → TableBuilder,
    (∀ builder align, align ≠ 0 → pad builder align = builder.padTo align) →
    ∀ line, state.stepWith pad (.ofLines lines) line = state.step (.ofLines lines) line
  padding : ∀ builder align, state.table = some builder → state.pendingAlign = some align →
    ∃ zeros < align, (builder.padTo align).bytes = builder.bytes ++ List.replicate zeros 0
  multiple : ∀ builder before since, state.table = some builder → done = before ++ since →
    (∀ line ∈ since, label? line = none ∧ data? line = none) →
    ∀ line ∈ since, ∀ bytes, alignment? (.ofLines lines) line = some bytes →
    ∃ align, state.pendingAlign = some align ∧ bytes ∣ (builder.padTo align).size

/-- In every state that the pass over a listing reaches, alignments are powers of two, and the padding
in front of data is short and serves each of those asked for since the last label or data. -/
theorem alignments_defined (reached : Reached lines done state) :
    AlignmentsDefined lines done state where
  pending _ pending := reached.isPowerOfTwo_pending pending
  table _ opened := reached.isPowerOfTwo_table opened
  nonzero pad same line := by
    rw [← stepWith_padTo]
    apply stepWith_congr
    intro builder align pending
    have positive := Nat.pos_of_isPowerOfTwo (reached.isPowerOfTwo_pending pending)
    exact same builder align (Nat.ne_of_gt positive)
  padding builder _ _ pending :=
    builder.exists_zeros_padTo (Nat.pos_of_isPowerOfTwo (reached.isPowerOfTwo_pending pending))
  multiple := by
    rintro builder before since opened rfl noneSince line member bytes asks
    obtain ⟨align, pending, dvd⟩ := reached.exists_pending_dvd opened noneSince member asks
    have positive := Nat.pos_of_isPowerOfTwo (reached.isPowerOfTwo_pending pending)
    exact ⟨align, pending, dvd.trans (builder.dvd_size_padTo positive)⟩

/-- In front of the last line, three alignments of which the second is the greatest wait for data. -/
theorem alignments_defined_three :
    Reached [".rodata", ".p2align 4", "T:", ".byte 1", ".p2align 1", ".balign 8", ".p2align 2", ".short 2"]
        [".rodata", ".p2align 4", "T:", ".byte 1", ".p2align 1", ".balign 8", ".p2align 2"]
        { area := .readOnlyData, table := some { label := "T", align := 16, items := #[⟨.one, 1⟩] },
          pendingAlign := some 8 } ∧
      AlignmentsDefined
        [".rodata", ".p2align 4", "T:", ".byte 1", ".p2align 1", ".balign 8", ".p2align 2", ".short 2"]
        [".rodata", ".p2align 4", "T:", ".byte 1", ".p2align 1", ".balign 8", ".p2align 2"]
        { area := .readOnlyData, table := some { label := "T", align := 16, items := #[⟨.one, 1⟩] },
          pendingAlign := some 8 } := by
  have reached : Reached
      [".rodata", ".p2align 4", "T:", ".byte 1", ".p2align 1", ".balign 8", ".p2align 2", ".short 2"]
      [".rodata", ".p2align 4", "T:", ".byte 1", ".p2align 1", ".balign 8", ".p2align 2"]
      { area := .readOnlyData, table := some { label := "T", align := 16, items := #[⟨.one, 1⟩] },
        pendingAlign := some 8 } :=
    ⟨⟨[".short 2"], rfl⟩, by decide +kernel⟩
  exact ⟨reached, alignments_defined reached⟩

end SegmenterState

end AsmTranslit
