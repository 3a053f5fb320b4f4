import AsmTranslit.Proofs.CheckedRuns
import AsmTranslit.RoutineBody
import Mathlib.Data.List.Nodup

/-!
# Local labels

The labels of a routine and their new names.  A body defines no label twice, the labels that branches
name are numbered in the order of their definitions, and a new name tells both the routine and the
number, because the number is all that follows the last `L`.
-/

namespace AsmTranslit

variable {routine name : String} {body : List (String × Nat)} {seen defined : List String}

def labelsOf (body : List (String × Nat)) : List String :=
  body.filterMap fun line => label? line.1

theorem definedLabels_eq_ok (h : definedLabels routine seen body = .ok defined) :
    defined = labelsOf body ∧ defined.Nodup ∧ ∀ name ∈ defined, name ∉ seen := by
  fun_induction definedLabels routine seen body generalizing defined with
  | case1 seen =>
    obtain rfl := Except.ok.inj h
    simp [labelsOf]
  | case2 seen text index body noLabel ih =>
    obtain ⟨same, distinct, fresh⟩ := ih h
    exact ⟨by simpa [labelsOf, noLabel] using same, distinct, fresh⟩
  | case3 => simp at h
  | case4 seen text index body name read new ih =>
    obtain ⟨rest, run, last⟩ := bind_eq_ok_iff.1 h
    obtain rfl := Except.ok.inj last
    obtain ⟨same, distinct, fresh⟩ := ih run
    refine ⟨by simpa [labelsOf, read] using same, ?_, ?_⟩
    · rw [List.nodup_cons]
      exact ⟨fun member => fresh name member (by simp), distinct⟩
    · intro other member
      obtain rfl | later := List.mem_cons.1 member
      · simpa using new
      · exact fun old => fresh other later (by simp [old])

theorem structural_of_definedLabels {failure : Failure}
    (h : definedLabels routine seen body = .error failure) :
    ∃ fault, failure.cause = .structural fault := by
  fun_induction definedLabels routine seen body with
  | case1 => simp at h
  | case2 seen text index body noLabel ih => exact ih h
  | case3 seen text index body name isLabel repeated =>
    obtain rfl := Except.error.inj h
    exact ⟨_, rfl⟩
  | case4 seen text index body name isLabel fresh ih =>
    rcases bind_eq_error_iff.1 h with later | ⟨names, -, done⟩
    · exact ih later
    · cases done

private theorem lookup_map_zipIdx {β : Type} (f : Nat → β) (names : List String) (start : Nat)
    (name : String) : ((names.zipIdx start).map fun (name, n) => (name, f n)).lookup name =
      if name ∈ names then some (f (start + names.idxOf name)) else none := by
  induction names generalizing start with
  | nil => simp
  | cons first names ih =>
    by_cases same : name = first
    · simp [same]
    · have differs : (name == first) = false := by simpa using same
      have differs' : (first == name) = false := by simpa using Ne.symm same
      simp only [List.zipIdx_cons, List.map_cons, List.lookup_cons, differs, ih, List.mem_cons, same,
        false_or, List.idxOf_cons, differs', cond_false, Nat.add_assoc, Nat.add_comm 1]

theorem lookup_renameLabels (routine : String) (defined referenced : List String) (name : String) :
    (renameLabels routine defined referenced).lookup name =
      if name ∈ defined.filter referenced.contains then
        some (localLabel routine ((defined.filter referenced.contains).idxOf name))
      else none := by
  rw [renameLabels, lookup_map_zipIdx, Nat.zero_add]

/-- A name and a number behind its last `L` can be told apart. -/
theorem append_cons_inj_of_notMem {xs ys ds es : List Char} {c : Char} (hd : c ∉ ds) (he : c ∉ es)
    (h : xs ++ c :: ds = ys ++ c :: es) : xs = ys ∧ ds = es := by
  obtain ⟨mid, rfl, rest⟩ | ⟨mid, rfl, rest⟩ := List.append_eq_append_iff.1 h
  · cases mid with
    | nil => simpa using rest
    | cons d mid =>
      obtain ⟨rfl, rfl⟩ := List.cons.inj rest
      simp at hd
  · cases mid with
    | nil => simpa using rest.symm
    | cons d mid =>
      obtain ⟨rfl, rfl⟩ := List.cons.inj rest
      simp at he

theorem localLabel_inj {first second : String} {m n : Nat} :
    localLabel first m = localLabel second n ↔ first = second ∧ m = n := by
  constructor
  · intro h
    have noL (n : Nat) : 'L' ∉ (toString n).toList := by
      intro member
      rw [Nat.toString_eq_ofList_toDigits, String.toList_ofList] at member
      have digit := Nat.isDigit_of_mem_toDigits (by decide) (by decide) member
      simp at digit
    have lists : (first.toList ++ ['_']) ++ 'L' :: (toString m).toList =
        (second.toList ++ ['_']) ++ 'L' :: (toString n).toList := by
      simpa [localLabel] using congrArg String.toList h
    obtain ⟨names, digits⟩ := append_cons_inj_of_notMem (noL m) (noL n) lists
    rw [Nat.toString_eq_ofList_toDigits, Nat.toString_eq_ofList_toDigits, String.toList_ofList,
      String.toList_ofList] at digits
    refine ⟨String.toList_inj.1 (List.append_cancel_right names), ?_⟩
    calc m = Nat.ofDigitChars 10 (Nat.toDigits 10 m) 0 := Nat.ofDigitChars_ten_toDigits.symm
      _ = Nat.ofDigitChars 10 (Nat.toDigits 10 n) 0 := by rw [digits]
      _ = n := Nat.ofDigitChars_ten_toDigits
  · rintro ⟨rfl, rfl⟩
    rfl

/-- Different labels get different names. -/
theorem lookup_renameLabels_inj {referenced : List String} {first second renamed : String}
    (hfirst : (renameLabels routine defined referenced).lookup first = some renamed)
    (hsecond : (renameLabels routine defined referenced).lookup second = some renamed) :
    first = second := by
  rw [lookup_renameLabels, Option.ite_none_right_eq_some] at hfirst hsecond
  have same : localLabel routine _ = localLabel routine _ :=
    (Option.some.inj hfirst.2).trans (Option.some.inj hsecond.2).symm
  exact (List.idxOf_inj hfirst.1).1 (localLabel_inj.1 same).2

/-- The label that a Go line defines, if it does. -/
def GoLine.defines? : GoLine → Option String
  | label name => some name
  | _ => none

/-- The labels that Go lines define, in order. -/
def definitions (lines : List GoLine) : List String :=
  lines.filterMap GoLine.defines?

@[simp] theorem definitions_append (first second : List GoLine) :
    definitions (first ++ second) = definitions first ++ definitions second :=
  List.filterMap_append

@[simp] theorem definitions_map_label (names : List String) :
    definitions (names.map .label) = names := by
  rw [definitions, List.filterMap_map]
  exact List.filterMap_some

theorem mem_definitions {lines : List GoLine} :
    name ∈ definitions lines ↔ GoLine.label name ∈ lines := by
  rw [definitions, List.mem_filterMap]
  constructor
  · rintro ⟨line, member, defines⟩
    cases line with
    | label other =>
      obtain rfl := Option.some.inj defines
      exact member
    | _ => simp [GoLine.defines?] at defines
  · exact fun member => ⟨_, member, rfl⟩

theorem count_label (lines : List GoLine) (name : String) :
    lines.count (.label name) = (definitions lines).count name := by
  rw [definitions, List.count_filterMap, List.count_eq_countP]
  apply List.countP_congr
  intro line _
  cases line <;> simp [GoLine.defines?]

end AsmTranslit
