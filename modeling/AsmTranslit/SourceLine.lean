import AsmTranslit.Directive

/-!
# Source lines

What a line of a listing is, by its own text alone: blank, a label, a directive or an instruction.
Comments and surrounding blanks do not count.  A line that has the form of neither a label nor a
directive is an instruction.
-/

namespace AsmTranslit

inductive SourceLine
  | blank
  | label (name : String)
  | directive (directive : Directive)
  | instruction (text : String)
  deriving DecidableEq, Repr

/-- The part of a line that counts: no comment, no surrounding blanks. -/
def lineContent (line : String) : List Char :=
  trim (beforeComment .outside line.toList)

/-- The name of a label and the text after its colon.  Blanks may stand before the colon. -/
def labelParts? : List Char → Option (List Char × List Char)
  | [] => none
  | c :: cs =>
    if isSymbolStart c then
      match trimStart (cs.dropWhile isSymbolChar) with
      | ':' :: rest => if rest.contains '\n' then none else some (c :: cs.takeWhile isSymbolChar, rest)
      | _ => none
    else none

def isDirectiveChar (c : Char) : Bool :=
  c.isAlphanum || c == '_' || c == '.'

def directiveParts? : List Char → Option (String × List Char)
  | '.' :: cs =>
    let name := cs.takeWhile isDirectiveChar
    let arguments := cs.dropWhile isDirectiveChar
    if name.isEmpty || arguments.contains '\n' then none
    else some (String.ofList ('.' :: name), arguments)
  | _ => none

def classifyContent (content : List Char) : Except LineFault SourceLine :=
  if content.isEmpty then .ok .blank
  else
    match labelParts? content with
    | some (name, rest) =>
      if (trim rest).isEmpty then .ok (.label (String.ofList name))
      else .error (.textAfterLabel (String.ofList (trim rest)))
    | none =>
      match directiveParts? content with
      | some (name, arguments) => (readDirective name (trim arguments)).map .directive
      | none => .ok (.instruction (String.ofList content))

def classify (line : String) : Except LineFault SourceLine :=
  classifyContent (lineContent line)

theorem symbol_of_labelParts? {content name rest : List Char}
    (parts : labelParts? content = some (name, rest)) :
    name.head?.any isSymbolStart ∧ ∀ c ∈ name, isSymbolChar c := by
  revert parts
  fun_cases labelParts? content with
  | case3 c tail start after _ _ =>
    intro parts
    obtain ⟨rfl, -⟩ := Prod.mk.inj (Option.some.inj parts)
    refine ⟨start, ?_⟩
    intro d member
    rcases List.mem_cons.1 member with rfl | inTail
    · exact isSymbolChar_of_isSymbolStart start
    · exact List.all_eq_true.1 List.all_takeWhile d inTail
  | _ => simp

theorem exists_labelParts?_of_classify {line name : String}
    (h : classify line = .ok (.label name)) :
    ∃ rest, labelParts? (lineContent line) = some (name.toList, rest) := by
  revert h
  rw [classify]
  fun_cases classifyContent (lineContent line) with
  | case2 _ cs rest parts _ =>
    intro h
    obtain rfl : String.ofList cs = name := by simpa using h
    exact ⟨rest, by rw [parts, String.toList_ofList]⟩
  | case4 _ _ directive arguments =>
    cases readDirective directive (trim arguments) <;> simp [Except.map]
  | _ => simp

theorem isSymbolChar_of_classify {line name : String} (h : classify line = .ok (.label name)) :
    ∀ c ∈ name.toList, isSymbolChar c := by
  obtain ⟨rest, parts⟩ := exists_labelParts?_of_classify h
  exact (symbol_of_labelParts? parts).2

theorem directiveParts?_of_classify {line : String} {d : Directive}
    (read : classify line = .ok (.directive d)) :
    ∃ name arguments, directiveParts? (lineContent line) = some (name, arguments) ∧
      readDirective name (trim arguments) = .ok d := by
  rw [classify] at read
  revert read
  fun_cases classifyContent (lineContent line) with
  | case4 _ _ name arguments parts =>
    intro read
    refine ⟨name, arguments, parts, ?_⟩
    cases reads : readDirective name (trim arguments) with
    | error fault => simp [reads, Except.map] at read
    | ok other => simpa [reads, Except.map] using read
  | _ => simp

/-- The directives that only Mach-O listings have, section switches apart. -/
def machONames : List String :=
  [".const", ".literal4", ".literal8", ".literal16", ".cstring", ".build_version",
    ".macosx_version_min", ".subsections_via_symbols", ".private_extern", ".weak_definition",
    ".data_region", ".end_data_region"]

def isMachOOnly (line : String) : Bool :=
  match directiveParts? (lineContent line) with
  | some (name, arguments) =>
    machONames.contains name ||
      (name == ".section" && "__".toList.isPrefixOf (sectionName arguments))
  | none => false

/-- The object format of a listing: one line of Mach-O decides for it. -/
def ObjectFormat.ofLines (lines : List String) : ObjectFormat :=
  if lines.any isMachOOnly then .machO else .elf

end AsmTranslit
