import AsmTranslit.Proofs.CheckedRuns
import AsmTranslit.Proofs.SegmenterStep

/-!
# Routine spans

Where the routines of a listing are, said without the pass that finds them: a routine starts after a
declared label in text, and ends at the first later line that ends it.  The pass carries its closed
segments and its open routine; together they are the spans of the lines read so far.
-/

namespace AsmTranslit

/-- The kind of section that follows the given lines.  A listing starts in text. -/
def areaAfter (lines : List String) : SectionKind :=
  (lines.filterMap switchKind?).getLast?.getD .text

/-- The labels that `starts` finds in the sections where they stand, with their indexes. -/
def sectionLabels (starts : SectionKind → String → Option String) (lines : List String) :
    List (String × Nat) :=
  lines.zipIdx.filterMap fun (line, index) =>
    (starts (areaAfter (lines.take index)) line).map (·, index)

/-- The labels that start routines, with their indexes. -/
def routineLabels (declared lines : List String) : List (String × Nat) :=
  sectionLabels (routineLabel? declared) lines

/-- The routine of a label: from the line after it to the first line that ends it. -/
def routineSpan (declared lines : List String) : String × Nat → Segment
  | (name, index) =>
    ⟨name, index + 1,
      index + 1 + (lines.drop (index + 1)).findIdx (endsRoutine declared name)⟩

def routineSpans (declared lines : List String) : List Segment :=
  (routineLabels declared lines).map (routineSpan declared lines)

/-- Whether a line with the given index is one of a routine's. -/
def Segment.Contains (segment : Segment) (index : Nat) : Prop :=
  segment.start ≤ index ∧ index < segment.stop

variable {declared lines done : List String} {line : String} {index : Nat}

def Segment.covers (segment : Segment) (index : Nat) : Bool :=
  segment.start ≤ index && index < segment.stop

theorem Segment.covers_eq_true_iff {segment : Segment} :
    segment.covers index = true ↔ segment.Contains index := by
  simp [covers, Contains]

/-- The body of a routine is a choice of lines by their numbers. -/
theorem Segment.body_eq_filter (segment : Segment) (begun : segment.start ≤ segment.stop)
    (ended : segment.stop ≤ lines.length) :
    segment.body lines = lines.zipIdx.filter fun entry => segment.covers entry.2 := by
  obtain ⟨before, rest, rfl, isStart⟩ : ∃ before rest, lines = before ++ rest ∧
      before.length = segment.start :=
    ⟨lines.take segment.start, lines.drop segment.start, (List.take_append_drop _ _).symm,
      List.length_take_of_le (Nat.le_trans begun ended)⟩
  obtain ⟨body, after, rfl, isStop⟩ : ∃ body after, rest = body ++ after ∧
      body.length = segment.stop - segment.start := by
    rw [List.length_append] at ended
    exact ⟨rest.take (segment.stop - segment.start), rest.drop (segment.stop - segment.start),
      (List.take_append_drop _ _).symm, List.length_take_of_le (by omega)⟩
  have none : before.zipIdx.filter (fun entry => segment.covers entry.2) = [] := by
    rw [List.filter_eq_nil_iff]
    intro entry member
    have bound := (List.mem_zipIdx member).2.1
    rw [Segment.covers_eq_true_iff, Segment.Contains]
    omega
  have all : (body.zipIdx segment.start).filter (fun entry => segment.covers entry.2) =
      body.zipIdx segment.start := by
    rw [List.filter_eq_self]
    intro entry member
    obtain ⟨low, high, -⟩ := List.mem_zipIdx member
    rw [Segment.covers_eq_true_iff, Segment.Contains]
    omega
  have none' : (after.zipIdx segment.stop).filter (fun entry => segment.covers entry.2) = [] := by
    rw [List.filter_eq_nil_iff]
    intro entry member
    have bound := (List.mem_zipIdx member).1
    rw [Segment.covers_eq_true_iff, Segment.Contains]
    omega
  have reached : segment.start + body.length = segment.stop := by omega
  rw [Segment.body, if_pos ⟨begun, ended⟩, ← isStart, List.drop_left, isStart, ← isStop,
    List.take_left, List.zipIdx_append, List.zipIdx_append, Nat.zero_add, isStart, reached,
    List.filter_append, List.filter_append, none, all, none', List.nil_append, List.append_nil]

theorem Segment.mem_body_iff {segment : Segment} (begun : segment.start ≤ segment.stop)
    (ended : segment.stop ≤ lines.length) :
    (line, index) ∈ segment.body lines ↔ lines[index]? = some line ∧ segment.Contains index := by
  rw [segment.body_eq_filter begun ended, List.mem_filter, List.mem_zipIdx_iff_getElem?,
    Segment.covers_eq_true_iff]

private theorem areaAfter_append (done : List String) (line : String) :
    areaAfter (done ++ [line]) = (switchKind? line).getD (areaAfter done) := by
  cases h : switchKind? line with
  | none => simp [areaAfter, h]
  | some kind => simp [areaAfter, h]

theorem sectionLabels_append (starts : SectionKind → String → Option String) (done : List String)
    (line : String) :
    sectionLabels starts (done ++ [line]) =
      sectionLabels starts done ++ ((starts (areaAfter done) line).map (·, done.length)).toList := by
  have before : ∀ entry ∈ done.zipIdx, (done ++ [line]).take entry.2 = done.take entry.2 := by
    intro entry member
    have bound : entry.2 < 0 + done.length := List.snd_lt_add_of_mem_zipIdx member
    exact List.take_append_of_le_length (by omega)
  have same : done.zipIdx.filterMap (fun (text, index) =>
      (starts (areaAfter ((done ++ [line]).take index)) text).map (·, index)) =
      sectionLabels starts done := by
    apply List.filterMap_congr
    intro entry member
    simp only [before entry member]
  rw [sectionLabels, List.zipIdx_append, List.filterMap_append, same]
  cases h : starts (areaAfter done) line with
  | none => simp [h]
  | some name => simp [h]

theorem mem_sectionLabels {starts : SectionKind → String → Option String} {entry : String × Nat} :
    entry ∈ sectionLabels starts lines ↔ ∃ line, lines[entry.2]? = some line ∧
      starts (areaAfter (lines.take entry.2)) line = some entry.1 := by
  obtain ⟨name, index⟩ := entry
  simp only [sectionLabels, List.mem_filterMap, Prod.exists, List.mem_zipIdx_iff_getElem?,
    Option.map_eq_some_iff, Prod.mk.injEq]
  constructor
  · rintro ⟨line, _, read, _, starts, rfl, rfl⟩
    exact ⟨line, read, starts⟩
  · rintro ⟨line, read, starts⟩
    exact ⟨line, index, read, name, starts, rfl, rfl⟩

theorem index_lt_of_mem_sectionLabels {starts : SectionKind → String → Option String}
    {entry : String × Nat} (h : entry ∈ sectionLabels starts lines) : entry.2 < lines.length := by
  obtain ⟨line, read, -⟩ := mem_sectionLabels.1 h
  exact (List.getElem?_eq_some_iff.1 read).1

theorem routineLabels_append (declared done : List String) (line : String) :
    routineLabels declared (done ++ [line]) = routineLabels declared done ++
      ((routineLabel? declared (areaAfter done) line).map (·, done.length)).toList :=
  sectionLabels_append (routineLabel? declared) done line

theorem map_name_routineSpans (declared lines : List String) :
    (routineSpans declared lines).map Segment.name = (routineLabels declared lines).map Prod.fst := by
  rw [routineSpans, List.map_map]
  rfl

private theorem findIdx_drop_le (lines : List String) (start : Nat) (p : String → Bool) :
    (lines.drop start).findIdx p ≤ lines.length - start := by
  have bound : (lines.drop start).findIdx p ≤ (lines.drop start).length := List.findIdx_le_length
  rwa [List.length_drop] at bound

theorem bounds_of_mem_routineSpans {segment : Segment} (h : segment ∈ routineSpans declared lines) :
    segment.start ≤ segment.stop ∧ segment.stop ≤ lines.length := by
  obtain ⟨entry, started, rfl⟩ := List.mem_map.1 h
  have inside := index_lt_of_mem_sectionLabels started
  have bound := findIdx_drop_le lines (entry.2 + 1) (endsRoutine declared entry.1)
  simp only [routineSpan]
  omega

/-- A span after one more line: one that had reached the end goes on unless the line ends it. -/
def Segment.extend (declared : List String) (line : String) (count : Nat) (span : Segment) :
    Segment :=
  if span.stop < count then span
  else { span with stop := if endsRoutine declared span.name line then count else count + 1 }

theorem Segment.extend_of_lt {span : Segment} {count : Nat} (h : span.stop < count) :
    span.extend declared line count = span :=
  if_pos h

theorem Segment.extend_of_le {span : Segment} {count : Nat} (h : count ≤ span.stop) :
    span.extend declared line count =
      { span with stop := if endsRoutine declared span.name line then count else count + 1 } :=
  if_neg (by omega)

theorem Segment.Contains.extend {segment : Segment} {count : Nat} (inside : segment.Contains index)
    (bound : index < count) : (segment.extend declared line count).Contains index := by
  by_cases closed : segment.stop < count
  · rwa [Segment.extend_of_lt closed]
  · rw [Segment.extend_of_le (by omega)]
    refine ⟨inside.1, ?_⟩
    simp only
    split <;> omega

theorem routineSpan_append (line : String) {entry : String × Nat} (h : entry.2 < done.length) :
    routineSpan declared (done ++ [line]) entry =
      (routineSpan declared done entry).extend declared line done.length := by
  obtain ⟨name, index⟩ := entry
  have after : (done ++ [line]).drop (index + 1) = done.drop (index + 1) ++ [line] :=
    List.drop_append_of_le_length (Nat.succ_le_of_lt h)
  have bound := findIdx_drop_le done (index + 1) (endsRoutine declared name)
  have last : [line].findIdx (endsRoutine declared name) =
      if endsRoutine declared name line then 0 else 1 := by
    simp [List.findIdx_cons, Bool.cond_eq_ite]
  simp only at h
  by_cases closed : (done.drop (index + 1)).findIdx (endsRoutine declared name) <
      done.length - (index + 1)
  · rw [Segment.extend_of_lt (by simp only [routineSpan]; omega)]
    simp only [routineSpan, after, List.findIdx_append, List.length_drop, if_pos closed]
  · rw [Segment.extend_of_le (by simp only [routineSpan]; omega)]
    simp only [routineSpan, after, List.findIdx_append, List.length_drop, if_neg closed, last,
      Segment.mk.injEq, true_and]
    by_cases ends : endsRoutine declared name line
    · simp only [ends, ↓reduceIte]
      omega
    · simp only [ends, Bool.false_eq_true, ↓reduceIte]
      omega

theorem mem_routineSpans_append (line : String) {segment : Segment}
    (member : segment ∈ routineSpans declared done) :
    segment.extend declared line done.length ∈ routineSpans declared (done ++ [line]) := by
  obtain ⟨entry, started, rfl⟩ := List.mem_map.1 member
  rw [← routineSpan_append line (index_lt_of_mem_sectionLabels started)]
  apply List.mem_map_of_mem
  rw [routineLabels_append]
  exact List.mem_append_left _ started

/-- A line of a routine stays one of the routine whatever lines follow. -/
theorem exists_span_append {span : Segment} (member : span ∈ routineSpans declared done)
    (inside : span.Contains index) (rest : List String) :
    ∃ later ∈ routineSpans declared (done ++ rest), later.name = span.name ∧ later.Contains index := by
  induction rest generalizing done span with
  | nil => exact ⟨span, by simpa using member, rfl, inside⟩
  | cons line rest ih =>
    have bound : index < done.length :=
      Nat.lt_of_lt_of_le inside.2 (bounds_of_mem_routineSpans member).2
    have sameName : (span.extend declared line done.length).name = span.name := by
      rw [Segment.extend]
      split <;> rfl
    obtain ⟨later, isSpan, named, inLater⟩ :=
      ih (mem_routineSpans_append line member) (inside.extend bound)
    exact ⟨later, by simpa using isSpan, named.trans sameName, inLater⟩

namespace SegmenterState

variable {context : ListingContext} {state next : SegmenterState}

/-- What the state knows of the lines read so far. -/
structure Tracks (declared done : List String) (state : SegmenterState) : Prop where
  area : state.area = areaAfter done
  openInText : state.routine.isSome → state.area = .text
  spans : routineSpans declared done = state.segments ++ (state.openSpan done.length).toList
  closed : ∀ segment ∈ state.segments, segment.stop < done.length
  names : ((routineLabels declared done).map Prod.fst).Nodup
  covered : ∀ index line, done[index]? = some line → (instruction? line).isSome →
    ∃ segment ∈ routineSpans declared done, segment.Contains index

theorem tracks_initial (declared : List String) : Tracks declared [] {} where
  area := rfl
  openInText := by simp
  spans := rfl
  closed := by simp
  names := List.nodup_nil
  covered := by simp

private theorem extend_openSpan (state : SegmenterState) (declared : List String) (line : String)
    (count : Nat) : (state.openSpan count).map (Segment.extend declared line count) =
      state.openSpan (if state.endsOpen declared line then count else count + 1) := by
  cases opened : state.routine with
  | none => simp [openSpan, opened]
  | some routine =>
    simp [openSpan, endsOpen, opened, Segment.extend_of_le]

private theorem Tracks.map_routineSpan_append (tracks : Tracks declared done state) (line : String) :
    (routineLabels declared done).map (routineSpan declared (done ++ [line])) =
      state.segments ++ (state.openSpan
        (if state.endsOpen declared line then done.length else done.length + 1)).toList := by
  calc (routineLabels declared done).map (routineSpan declared (done ++ [line]))
      = (routineSpans declared done).map (Segment.extend declared line done.length) := by
        rw [routineSpans, List.map_map]
        apply List.map_congr_left
        intro entry member
        exact routineSpan_append line (index_lt_of_mem_sectionLabels member)
    _ = state.segments.map (Segment.extend declared line done.length) ++
          ((state.openSpan done.length).map (Segment.extend declared line done.length)).toList := by
        rw [tracks.spans, List.map_append, Option.toList_map]
    _ = _ := by
        rw [extend_openSpan]
        have same : state.segments.map (Segment.extend declared line done.length) =
            state.segments.map id :=
          List.map_congr_left fun segment member => Segment.extend_of_lt (tracks.closed segment member)
        rw [same, List.map_id]

private theorem Tracks.routineSpans_append (tracks : Tracks declared done state)
    (step : Advances declared line done.length state next) :
    routineSpans declared (done ++ [line]) =
      next.segments ++ (next.openSpan (done.length + 1)).toList := by
  rw [step.segments_append_openSpan, ← tracks.map_routineSpan_append line, routineSpans,
    routineLabels_append, List.map_append, tracks.area]
  cases starts : routineLabel? declared (areaAfter done) line with
  | none => simp
  | some name => simp [routineSpan]

private theorem Tracks.step_openInText (tracks : Tracks declared done state)
    (step : Advances declared line index state next) (opened : next.routine.isSome) :
    next.area = .text := by
  have routine := step.routine
  cases starts : routineLabel? declared state.area line with
  | some name =>
    rw [step.area, switchKind?_of_routineLabel? starts]
    exact area_of_routineLabel? starts
  | none =>
    cases ends : state.endsOpen declared line with
    | true =>
      simp [starts, ends] at routine
      simp [routine] at opened
    | false =>
      rw [starts, ends] at routine
      simp only [Option.map_none, Option.none_or, Bool.false_eq_true, ↓reduceIte] at routine
      rw [routine] at opened
      obtain ⟨⟨name, start⟩, opened'⟩ := Option.isSome_iff_exists.1 opened
      have keeps : endsRoutine declared name line = false := by simpa [endsOpen, opened'] using ends
      rw [step.area]
      cases switches : switchKind? line with
      | none => exact tracks.openInText opened
      | some kind => exact switchKind?_of_not_endsRoutine keeps switches

private theorem Tracks.step_closed (tracks : Tracks declared done state)
    (step : Advances declared line done.length state next) :
    ∀ segment ∈ next.segments, segment.stop < done.length + 1 := by
  intro segment member
  rw [step.segments, List.mem_append] at member
  obtain old | new := member
  · have bound := tracks.closed segment old
    omega
  · have opened : segment ∈ state.openSpan done.length := by
      split at new
      · simpa using new
      · simp at new
    obtain ⟨routine, -, rfl⟩ := Option.map_eq_some_iff.1 opened
    exact Nat.lt_succ_self _

private theorem Tracks.step_names (tracks : Tracks declared done state)
    (step : Advances declared line done.length state next) :
    ((routineLabels declared (done ++ [line])).map Prod.fst).Nodup := by
  rw [routineLabels_append, List.map_append, ← tracks.area]
  cases starts : routineLabel? declared state.area line with
  | none => simpa using tracks.names
  | some name =>
    have fresh := step.fresh name starts
    rw [step.segments_of_starts starts, ← tracks.spans, map_name_routineSpans] at fresh
    have single : (Option.map (fun name => (name, done.length)) (some name)).toList.map Prod.fst =
        [name] := rfl
    rw [single, List.nodup_append]
    refine ⟨tracks.names, by simp, ?_⟩
    rintro old member new newMember rfl
    obtain rfl := List.mem_singleton.1 newMember
    exact fresh member

/-- A line that does not end the open routine is one of the routine. -/
theorem Tracks.exists_span {name : String} (tracks : Tracks declared done state)
    (opened : state.routine.map Prod.fst = some name)
    (keeps : endsRoutine declared name line = false) :
    ∃ span ∈ routineSpans declared (done ++ [line]), span.name = name ∧ span.Contains done.length := by
  obtain ⟨⟨routine, start⟩, isOpen, rfl⟩ := Option.map_eq_some_iff.1 opened
  dsimp only at keeps ⊢
  have member : (⟨routine, start, done.length⟩ : Segment) ∈ routineSpans declared done := by
    rw [tracks.spans]
    simp [openSpan, isOpen]
  have begun : start ≤ done.length := (bounds_of_mem_routineSpans member).1
  have goesOn : (⟨routine, start, done.length⟩ : Segment).extend declared line done.length =
      ⟨routine, start, done.length + 1⟩ := by
    simp [Segment.extend, keeps]
  have extended := mem_routineSpans_append line member
  rw [goesOn] at extended
  exact ⟨_, extended, rfl, begun, Nat.lt_succ_self _⟩

/-- An instruction that is the new line is in the open routine, which it does not end. -/
theorem Tracks.last_covered (tracks : Tracks declared done state)
    (step : Advances declared line done.length state next)
    (isInstruction : (instruction? line).isSome) :
    ∃ segment ∈ routineSpans declared (done ++ [line]), segment.Contains done.length := by
  obtain ⟨routine, opened⟩ := Option.isSome_iff_exists.1 (step.inRoutine isInstruction)
  have neutral : NeutralLine declared line := by
    obtain ⟨_, read⟩ := Option.isSome_iff_exists.1 isInstruction
    exact neutralLine_instruction (instruction?_eq_some_iff.1 read)
  obtain ⟨span, member, -, inside⟩ :=
    tracks.exists_span (congrArg (Option.map Prod.fst) opened) (neutral.noEnd routine.1)
  exact ⟨span, member, inside⟩

private theorem Tracks.step_covered (tracks : Tracks declared done state)
    (step : Advances declared line done.length state next) (text : String)
    (read : (done ++ [line])[index]? = some text) (isInstruction : (instruction? text).isSome) :
    ∃ segment ∈ routineSpans declared (done ++ [line]), segment.Contains index := by
  by_cases old : index < done.length
  · rw [List.getElem?_append_left old] at read
    obtain ⟨segment, member, inside⟩ := tracks.covered index text read isInstruction
    exact ⟨_, mem_routineSpans_append line member, inside.extend old⟩
  · have bound : index < (done ++ [line]).length := (List.getElem?_eq_some_iff.1 read).1
    obtain rfl : index = done.length := by
      rw [List.length_append, List.length_singleton] at bound
      omega
    obtain rfl : line = text := by simpa using read
    exact tracks.last_covered step isInstruction

theorem Tracks.step (tracks : Tracks declared done state)
    (step : Advances declared line done.length state next) :
    Tracks declared (done ++ [line]) next where
  area := by rw [step.area, tracks.area, areaAfter_append]
  openInText := tracks.step_openInText step
  spans := by rw [List.length_append, List.length_singleton, tracks.routineSpans_append step]
  closed := by simpa using tracks.step_closed step
  names := tracks.step_names step
  covered := fun _ => tracks.step_covered step

theorem tracks_run (h : lines.zipIdx.foldlM (SegmenterState.step context) {} = .ok state) :
    Tracks context.declared lines state := by
  have run := foldlM_zipIdx_invariant
    (fun done line state next tracks step =>
      Tracks.step tracks (advances_step step tracks.openInText))
    (tracks_initial context.declared) h
  simpa using run

end SegmenterState

private theorem pairwise_routineLabels (declared lines : List String) :
    (routineLabels declared lines).Pairwise fun a b => a.2 < b.2 := by
  apply List.Pairwise.filterMap _ _ (pairwise_zipIdx lines 0)
  rintro ⟨line, index⟩ ⟨line', index'⟩ before entry started entry' started'
  obtain ⟨name, -, rfl⟩ := Option.map_eq_some_iff.1 started
  obtain ⟨name', -, rfl⟩ := Option.map_eq_some_iff.1 started'
  exact before

/-- A routine ends no later than at the label of a later one. -/
theorem stop_routineSpan_le_of_lt {first second : String × Nat}
    (later : second ∈ routineLabels declared lines) (before : first.2 < second.2) :
    (routineSpan declared lines first).stop ≤ second.2 := by
  obtain ⟨line, read, starts⟩ := mem_sectionLabels.1 later
  have ends := endsRoutine_of_routineLabel? first.1 starts
  apply Nat.le_of_not_lt
  intro inside
  have bound : second.2 - (first.2 + 1) <
      (lines.drop (first.2 + 1)).findIdx (endsRoutine declared first.1) := by
    simp only [routineSpan] at inside
    omega
  have keeps := List.not_of_lt_findIdx bound
  have same : first.2 + 1 + (second.2 - (first.2 + 1)) = second.2 := by omega
  obtain ⟨_, here⟩ := List.getElem?_eq_some_iff.1 read
  simp [List.getElem_drop, same, here, ends] at keeps

private theorem pairwise_routineSpans (declared lines : List String) :
    (routineSpans declared lines).Pairwise fun a b => a.stop < b.start := by
  rw [routineSpans, List.pairwise_map]
  apply (pairwise_routineLabels declared lines).imp_of_mem
  intro first second _ later h
  exact Nat.lt_succ_of_le (stop_routineSpan_le_of_lt later h)

/-- No line is in two routines. -/
theorem eq_of_contains {segments : List Segment}
    (disjoint : segments.Pairwise fun first second => first.stop < second.start)
    {first second : Segment} (firstMember : first ∈ segments) (secondMember : second ∈ segments)
    (firstInside : first.Contains index) (secondInside : second.Contains index) :
    first = second := by
  have apart : segments.Pairwise fun a b => a.Contains index → b.Contains index → a = b := by
    apply disjoint.imp
    rintro a b before ⟨_, inside⟩ ⟨inside', _⟩
    omega
  have apart' : segments.Pairwise (flip fun a b => a.Contains index → b.Contains index → a = b) :=
    apart.imp fun same inside inside' => (same inside' inside).symm
  exact List.Pairwise.forall_of_forall_of_flip (fun _ _ _ _ => rfl) apart apart' firstMember
    secondMember firstInside secondInside

namespace Segmentation

variable {segmentation : Segmentation}

theorem exists_run (h : Segmentation.ofLines lines = .ok segmentation) :
    ∃ state, lines.zipIdx.foldlM (SegmenterState.step (.ofLines lines)) {} = .ok state ∧
      segmentation = state.finish lines.length := by
  rw [Segmentation.ofLines, bind_eq_ok_iff] at h
  obtain ⟨state, run, last⟩ := h
  exact ⟨state, run, (Except.ok.inj last).symm⟩

theorem segments_eq_routineSpans (h : Segmentation.ofLines lines = .ok segmentation) :
    segmentation.segments = routineSpans (declaredRoutines lines) lines := by
  obtain ⟨state, run, rfl⟩ := exists_run h
  have tracks := SegmenterState.tracks_run run
  rw [show declaredRoutines lines = (ListingContext.ofLines lines).declared from rfl, tracks.spans]
  simp [SegmenterState.finish]

theorem isSymbolChar_of_mem_name {segment : Segment} {c : Char}
    (h : Segmentation.ofLines lines = .ok segmentation) (isSegment : segment ∈ segmentation.segments)
    (member : c ∈ segment.name.toList) : isSymbolChar c := by
  rw [segments_eq_routineSpans h] at isSegment
  obtain ⟨entry, started, same⟩ := List.mem_map.1 isSegment
  obtain ⟨line, -, starts⟩ := mem_sectionLabels.1 started
  have name : segment.name = entry.1 := by rw [← same, routineSpan]
  rw [name] at member
  exact isSymbolChar_of_classify (classify_of_routineLabel? starts) c member

theorem nodup_segment_names (h : Segmentation.ofLines lines = .ok segmentation) :
    (segmentation.segments.map Segment.name).Nodup := by
  rw [segments_eq_routineSpans h, map_name_routineSpans]
  obtain ⟨state, run, -⟩ := exists_run h
  exact (SegmenterState.tracks_run run).names

theorem exists_segment_of_instruction (h : Segmentation.ofLines lines = .ok segmentation)
    (read : lines[index]? = some line) (isInstruction : (instruction? line).isSome) :
    ∃ segment ∈ segmentation.segments, segment.Contains index := by
  rw [segments_eq_routineSpans h]
  obtain ⟨state, run, -⟩ := exists_run h
  exact (SegmenterState.tracks_run run).covered index line read isInstruction

/-- Which routines a listing has and where they end.  The routines are those of the declared labels in
text, in order; each ends at the first line that ends it, or with the listing.  Their names differ,
they are disjoint, and every instruction is in one of them. -/
theorem segments_exact (h : Segmentation.ofLines lines = .ok segmentation) :
    segmentation.segments = routineSpans (declaredRoutines lines) lines ∧
    (segmentation.segments.map Segment.name).Nodup ∧
    (∀ segment ∈ segmentation.segments,
      segment.start ≤ segment.stop ∧ segment.stop ≤ lines.length) ∧
    segmentation.segments.Pairwise (fun first second => first.stop < second.start) ∧
    ∀ index line, lines[index]? = some line → (instruction? line).isSome →
      ∃! segment, segment ∈ segmentation.segments ∧ segment.Contains index := by
  have spans := segments_eq_routineSpans h
  have disjoint : segmentation.segments.Pairwise fun first second => first.stop < second.start := by
    rw [spans]
    exact pairwise_routineSpans _ _
  refine ⟨spans, nodup_segment_names h, ?_, disjoint, ?_⟩
  · intro segment member
    rw [spans] at member
    exact bounds_of_mem_routineSpans member
  · intro index line read isInstruction
    obtain ⟨segment, member, inside⟩ := exists_segment_of_instruction h read isInstruction
    refine ⟨segment, ⟨member, inside⟩, ?_⟩
    rintro other ⟨otherMember, otherInside⟩
    exact eq_of_contains disjoint otherMember member otherInside inside

/-- Two routines with a table between them: the first ends at its size, the second with the
listing, and its local label ends nothing. -/
theorem segments_exact_around_table :
    Segmentation.ofLines [".globl f", "f:", "ret", ".size f, 2", ".rodata", "T:", ".byte 7",
        ".text", ".type g,@function", "g:", ".L:", "ret"] =
      .ok ⟨[⟨"f", 2, 3⟩, ⟨"g", 10, 12⟩], [⟨"T", 1, [⟨.one, 7⟩]⟩]⟩ ∧
    ∃! segment, segment ∈ [(⟨"f", 2, 3⟩ : Segment), ⟨"g", 10, 12⟩] ∧ segment.Contains 11 := by
  have h : Segmentation.ofLines [".globl f", "f:", "ret", ".size f, 2", ".rodata", "T:", ".byte 7",
        ".text", ".type g,@function", "g:", ".L:", "ret"] =
      .ok ⟨[⟨"f", 2, 3⟩, ⟨"g", 10, 12⟩], [⟨"T", 1, [⟨.one, 7⟩]⟩]⟩ := by
    decide +kernel
  obtain ⟨-, -, -, -, unique⟩ := segments_exact h
  exact ⟨h, unique 11 "ret" rfl (by decide +kernel)⟩

end Segmentation

end AsmTranslit
