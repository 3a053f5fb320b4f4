import AsmTranslit.CommandLine
import AsmTranslit.Proofs.OutputFile

/-!
# Command line requests

What the arguments of the program can do, to the files and to the terminal.  Only a conversion touches
files, and its input and output are two of the arguments, in this order; if the program ends with a
status other than zero, no file has changed.  A complaint about the arguments repeats none of their
control sequences.
-/

namespace AsmTranslit

attribute [local instance (high)] List.decidableBAll

/-- A text of characters that a terminal shows or lays it out by. -/
def isShown (text : String) : Bool :=
  text.toList.all isVisible

private theorem isShown_append {s t : String} (first : isShown s = true) (second : isShown t = true) :
    isShown (s ++ t) = true := by
  rw [isShown, String.toList_append, List.all_append, Bool.and_eq_true]
  exact ⟨first, second⟩

private theorem isVisible_of_shows {place : SequencePlace} {c : Char} (h : place.shows c = true) :
    isVisible c = true := by
  cases place <;> simp_all [SequencePlace.shows, isVisible]

private theorem all_isVisible_visible (place : SequencePlace) (interrupted : Bool) (cs : List Char) :
    (place.visible interrupted cs).all isVisible = true := by
  induction cs generalizing place interrupted with
  | nil => rfl
  | cons c cs ih =>
    by_cases shown : (if interrupted then SequencePlace.outside else place).shows c = true
    · rw [SequencePlace.visible, if_pos shown, List.all_cons, isVisible_of_shows shown, ih,
        Bool.and_self]
    · rw [SequencePlace.visible, if_neg shown]
      exact ih _ _

theorem isShown_visibleText (text : String) : isShown (visibleText text) = true := by
  rw [isShown, visibleText, String.toList_ofList]
  exact all_isVisible_visible _ _ _

/-- The option that a value is not wanted for is one that exists. -/
def Misuse.NamesOption : Misuse → Prop
  | .unneededValue option _ _ => option ∈ longOptions
  | _ => True

private theorem Misuse.isShown_complaint {cause : Misuse} (named : cause.NamesOption) :
    isShown cause.complaint = true := by
  cases cause with
  | unexpected argument =>
    have opening : isShown "unexpected argument '" = true := by decide +kernel
    exact isShown_append (isShown_append opening (isShown_visibleText argument)) (by decide +kernel)
  | repeated switch => cases switch <;> decide +kernel
  | unneededValue option value earlier =>
    have known : ∀ option ∈ longOptions, isShown option = true := by decide +kernel
    have opening : isShown ("unexpected value '" ++ visibleText value ++ "' for '") = true :=
      isShown_append (isShown_append (by decide +kernel) (isShown_visibleText value))
        (by decide +kernel)
    exact isShown_append (isShown_append opening (known option named)) (by decide +kernel)

private theorem Misuse.isShown_usage {cause : Misuse} (named : cause.NamesOption) :
    isShown cause.usage = true := by
  cases cause with
  | unexpected | repeated =>
    have shown : isShown (usageLine calledName) = true := by decide +kernel
    exact shown
  | unneededValue option value earlier =>
    have all : ∀ option ∈ longOptions, ∀ settled contained : Bool,
        isShown ("Usage: " ++ " ".intercalate (calledName ::
          if !settled then [option, "[INPUT]", "[OUTPUT]"]
          else if contained then [combinedArguments]
          else [option, combinedArguments]) ++ "\n") = true := by
      decide +kernel
    exact all option named earlier.anySettled (switchNames.contains option)

theorem Misuse.isShown_message {cause : Misuse} (named : cause.NamesOption) :
    isShown cause.message = true := by
  have complaint : isShown ("error: " ++ cause.complaint) = true :=
    isShown_append (by decide +kernel) (isShown_complaint named)
  have usage : isShown ("error: " ++ cause.complaint ++ "\n\n" ++ cause.usage) = true :=
    isShown_append (isShown_append complaint (by decide +kernel)) (isShown_usage named)
  exact isShown_append usage (by decide +kernel)

private theorem Argument.mem_longOptions_of_ofText {text option value : String}
    (h : Argument.ofText text = .valued option value) : option ∈ longOptions := by
  grind [Argument.ofText]

private theorem Argument.eq_of_ofText {text path : String} (h : Argument.ofText text = .file path) :
    path = text := by
  grind [Argument.ofText]

namespace Request

variable {arguments : Arguments} {rest texts : List String} {options : Options}
  {input output : String} {cause : Misuse}

private theorem files_of_ofComplete (h : ofComplete arguments = .convert options input output) :
    arguments.files = [input, output] := by
  rw [ofComplete] at h
  split at h
  case h_1 files =>
    injection h with _ sameInput sameOutput
    rw [files, sameInput, sameOutput]
  case h_2 => cases h

private theorem sublist_of_addFile {files : List String} {file : String}
    (h : ∃ more, (arguments.addFile file).files ++ more = files ∧ more.Sublist rest) :
    ∃ more, arguments.files ++ more = files ∧ more.Sublist (file :: rest) := by
  obtain ⟨more, rfl, later⟩ := h
  exact ⟨file :: more, by simp [Arguments.addFile], later.cons_cons file⟩

private theorem sublist_of_ofFiles (h : ofFiles arguments rest = .convert options input output) :
    ∃ more, arguments.files ++ more = [input, output] ∧ more.Sublist rest := by
  induction rest generalizing arguments with
  | nil => exact ⟨[], by rw [List.append_nil, files_of_ofComplete h], .slnil⟩
  | cons file rest ih =>
    rw [ofFiles] at h
    split at h
    case isTrue => exact sublist_of_addFile (ih h)
    case isFalse => cases h

/-- The files of a conversion are those read before and some of the arguments that remain. -/
theorem sublist_of_ofRemaining (h : ofRemaining arguments rest = .convert options input output) :
    ∃ more, arguments.files ++ more = [input, output] ∧ more.Sublist rest := by
  induction rest generalizing arguments with
  | nil => exact ⟨[], by rw [List.append_nil, files_of_ofComplete h], .slnil⟩
  | cons argument rest ih =>
    have skip (h : ∃ more, arguments.files ++ more = [input, output] ∧ more.Sublist rest) :
        ∃ more, arguments.files ++ more = [input, output] ∧ more.Sublist (argument :: rest) := by
      obtain ⟨more, files, later⟩ := h
      exact ⟨more, files, later.cons argument⟩
    rw [ofRemaining] at h
    cases read : Argument.ofText argument with
    | help | version | valued | unknown =>
      rw [read] at h
      cases h
    | switch switch =>
      rw [read] at h
      dsimp only at h
      split at h
      case isTrue => cases h
      case isFalse =>
        have later : ∃ more, (arguments.addSwitch switch).files ++ more = [input, output] ∧
            more.Sublist rest := ih h
        exact skip later
    | separator =>
      rw [read] at h
      exact skip (sublist_of_ofFiles h)
    | file path =>
      rw [read] at h
      obtain rfl := Argument.eq_of_ofText read
      dsimp only at h
      split at h
      case isTrue => exact sublist_of_addFile (ih h)
      case isFalse => cases h

theorem sublist_of_ofArguments (h : ofArguments texts = .convert options input output) :
    [input, output].Sublist texts := by
  obtain ⟨more, files, later⟩ := sublist_of_ofRemaining h
  rwa [← files]

private theorem namesOption_of_ofFiles (h : ofFiles arguments rest = .misuse cause) :
    cause.NamesOption := by
  induction rest generalizing arguments with
  | nil =>
    rw [ofFiles, ofComplete] at h
    split at h <;> cases h
  | cons file rest ih =>
    rw [ofFiles] at h
    split at h
    case isTrue => exact ih h
    case isFalse =>
      cases h
      trivial

private theorem namesOption_of_ofRemaining (h : ofRemaining arguments rest = .misuse cause) :
    cause.NamesOption := by
  induction rest generalizing arguments with
  | nil =>
    rw [ofRemaining, ofComplete] at h
    split at h <;> cases h
  | cons argument rest ih =>
    rw [ofRemaining] at h
    cases read : Argument.ofText argument with
    | help | version =>
      rw [read] at h
      cases h
    | unknown =>
      rw [read] at h
      cases h
      trivial
    | valued option value =>
      rw [read] at h
      cases h
      exact Argument.mem_longOptions_of_ofText read
    | separator =>
      rw [read] at h
      exact namesOption_of_ofFiles h
    | switch switch =>
      rw [read] at h
      dsimp only at h
      split at h
      case isTrue =>
        cases h
        trivial
      case isFalse => exact ih h
    | file path =>
      rw [read] at h
      dsimp only at h
      split at h
      case isTrue => exact ih h
      case isFalse =>
        cases h
        trivial

/-- Whatever the arguments are, a complaint about them has no control sequence in it. -/
theorem isShown_message_of_ofArguments (h : ofArguments texts = .misuse cause) :
    isShown cause.message = true :=
  Misuse.isShown_message (namesOption_of_ofRemaining h)

section

variable {σ : Type} {access : FileAccess (StateM σ)} {view : FileView access} {state after : σ}
  {request : Request} {outcome : Outcome}

/-- A program that ends with a status other than zero has changed no file. -/
theorem contents?_perform (documented : view.Documented)
    (run : (request.perform access).run state = (outcome, after)) (failed : outcome.status ≠ 0) :
    view.contents? after = view.contents? state := by
  cases request with
  | help | version | misuse =>
    obtain ⟨-, rfl⟩ := Prod.mk.inj run
    rfl
  | convert options input output =>
    obtain ⟨result, final, convert, run⟩ := FileView.exists_of_run_bind run
    obtain ⟨rfl, rfl⟩ := Prod.mk.inj run
    cases result with
    | error => exact GoSource.contents?_convertFile_error documented convert
    | ok => exact absurd rfl failed

/-- A program that ends with status zero has put the result of the conversion into the output file. -/
theorem heldBy_perform (documented : view.Documented)
    (run : ((Request.convert options input output).perform access).run state = (outcome, after))
    (succeeded : outcome.status = 0) :
    ∃ source, GoSource.HeldBy (view.contents? after output) source ∧ ∃ contents,
      view.contents? state input = some contents ∧
        GoSource.ofContents options input contents = .ok source := by
  obtain ⟨result, final, convert, run⟩ := FileView.exists_of_run_bind run
  obtain ⟨rfl, rfl⟩ := Prod.mk.inj run
  cases result with
  | error => cases succeeded
  | ok source => exact ⟨source, GoSource.heldBy_convertFile_ok documented convert⟩

end

end Request

end AsmTranslit
