import AsmTranslit.Proofs.TableContents
import Mathlib.Data.Nat.Digits.Defs

/-!
# Runs of a table builder

A builder that is told step after step to take in a directive or to pad, whichever of the steps fail.
What a step adds is said by itself: a directive adds the bytes of its arguments up to the first one at
fault, a faulty fill adds nothing, and padding adds the fewest zeros.  Items and waiting bytes are two
parts of one image, to which every step appends.  The lines of the finished table tile this image in
order, each with two digits for each of its bytes.
-/

namespace AsmTranslit

/-- The bytes of an integer that is in the signed or the unsigned range of so many bytes. -/
def integerBytes? (count : Nat) (v : Int) : Option (List UInt8) :=
  if -(2 ^ (8 * count - 1)) ≤ v ∧ v ≤ 2 ^ (8 * count) - 1 then
    some (littleEndian count (v % 2 ^ (8 * count)))
  else none

/-- The bytes of one argument of a directive that takes its arguments one by one, if it is not at
fault. -/
def DataDirective.argument? : DataDirective → String → Option (List UInt8)
  | .integers width, argument => (readInteger? argument).bind (integerBytes? width.bytes)
  | .floats single, argument => (readFloat? argument).map fun literal =>
      if single then littleEndian 4 literal.bits32 else littleEndian 8 literal.bits64
  | .fill, _ => none
  | .strings terminated, argument => (readQuoted argument).toOption.map fun bytes =>
      bytes ++ if terminated then [0] else []

/-- The bytes of a fill: a count that fits 64 bits, and one byte, which is nought if it is left out. -/
def fill? (arguments : List String) : Option (List UInt8) := do
  let count ← arguments.head?.bind readInteger?
  let byte ← (arguments[1]?.map fun argument =>
    (readInteger? argument).bind (integerBytes? 1)).getD (some [0])
  if 0 ≤ count ∧ count < 2 ^ 64 then return (List.replicate count.toNat byte).flatten else none

/-- Whether none of a directive's arguments is at fault. -/
def DataDirective.isFaultless : DataDirective → List String → Bool
  | .fill, arguments => (fill? arguments).isSome
  | directive, arguments => arguments.all fun argument => (directive.argument? argument).isSome

/-- The bytes of a directive's arguments in front of the first one at fault; those of a fill are all or
none. -/
def DataDirective.added : DataDirective → List String → List UInt8
  | .fill, arguments => (fill? arguments).getD []
  | directive, arguments =>
    (arguments.takeWhile fun argument => (directive.argument? argument).isSome).flatMap
      fun argument => (directive.argument? argument).getD []

/-- What a table builder is told to do. -/
inductive BuilderStep
  | define (name arguments : String)
  | pad (align : Nat)
  deriving DecidableEq, Repr

namespace BuilderStep

def isFaultless : BuilderStep → Bool
  | define name arguments =>
    (DataDirective.ofName? name).any (·.isFaultless (splitArguments arguments))
  | pad _ => true

/-- The bytes that a step adds to an image; a name that is no directive's adds nothing. -/
def added (image : List UInt8) : BuilderStep → List UInt8
  | define name arguments =>
    ((DataDirective.ofName? name).map (·.added (splitArguments arguments))).getD []
  | pad align => List.replicate (fewestZeros align image.length) 0

def image (steps : List BuilderStep) : List UInt8 :=
  steps.foldl (fun image step => image ++ step.added image) []

end BuilderStep

example : BuilderStep.image [.define ".byte" "7, -128, 256, 1", .pad 4, .define ".zero" "2, x",
    .define ".asciz" "\"a\", b"] = [7, 128, 0, 0, 97, 0] := by
  decide +kernel

private theorem byteValue_littleEndian (count n : Nat) :
    byteValue (littleEndian count n) = n % 256 ^ count := by
  induction count generalizing n with
  | zero => simp [littleEndian, byteValue, Nat.mod_one]
  | succ count ih =>
    have next : ((n : Int) / 256) = ((n / 256 : Nat) : Int) := by omega
    have low : (UInt8.ofNat ((n : Int) % 256).toNat).toNat = n % 256 := by
      simp
      omega
    have unfolded : byteValue (littleEndian (count + 1) n) =
        n % 256 + 256 * byteValue (littleEndian count (n / 256 : Nat)) := by
      rw [littleEndian, next, byteValue, List.foldr_cons, low]
      rfl
    rw [unfolded, ih, Nat.pow_succ', Nat.mod_mul]

theorem map_bytes_ofInt? (width : DataWidth) (v : Int) :
    (DataItem.ofInt? width v).map DataItem.bytes = integerBytes? width.bytes v := by
  have residue : littleEndian width.bytes (v % 2 ^ (8 * width.bytes)) = littleEndian width.bytes v := by
    have split := Int.emod_add_mul_ediv v (2 ^ (8 * width.bytes))
    have power : (2 : Int) ^ (8 * width.bytes) = 256 ^ width.bytes := by
      rw [pow_mul]
      norm_num
    rw [power] at split ⊢
    rw [← littleEndian_add_mul width.bytes (v % 256 ^ width.bytes) (v / 256 ^ width.bytes), split]
  rw [integerBytes?, residue, DataItem.ofInt?]
  by_cases inRange : -(2 ^ (width.bits - 1)) ≤ v ∧ v < 2 ^ width.bits
  · have within : -(2 ^ (8 * width.bytes - 1)) ≤ v ∧ v ≤ 2 ^ (8 * width.bytes) - 1 :=
      ⟨inRange.1, Int.le_sub_one_of_lt inRange.2⟩
    rw [if_pos inRange, if_pos within, Option.map_some, DataItem.bytes_ofInt]
  · have outside : ¬(-(2 ^ (8 * width.bytes - 1)) ≤ v ∧ v ≤ 2 ^ (8 * width.bytes) - 1) :=
      fun within => inRange ⟨within.1, Int.lt_of_le_sub_one within.2⟩
    rw [if_neg inRange, if_neg outside, Option.map_none]

private theorem argument?_integers (width : DataWidth) (argument : String) :
    (DataDirective.integers width).argument? argument =
      (integerItem width argument).toOption.map DataItem.bytes := by
  rw [DataDirective.argument?, integerItem]
  cases readInteger? argument with
  | none => rfl
  | some v =>
    rw [Option.bind_some, ← map_bytes_ofInt?]
    cases fits : DataItem.ofInt? width v <;> simp [fits, Except.toOption]

private theorem argument?_floats (single : Bool) (argument : String) :
    (DataDirective.floats single).argument? argument =
      (floatItem single argument).toOption.map DataItem.bytes := by
  cases read : floatItem single argument with
  | ok item => exact bytes_floatItem read
  | error fault =>
    rw [floatItem] at read
    split at read
    case h_1 noFloat => simp [DataDirective.argument?, noFloat, Except.toOption]
    case h_2 => simp at read

private theorem argument?_strings (terminated : Bool) (argument : String) :
    (DataDirective.strings terminated).argument? argument =
      (stringBytes terminated argument).toOption.map id := by
  cases read : stringBytes terminated argument with
  | ok bytes => exact stringBytes_eq_ok read
  | error fault =>
    rw [stringBytes] at read
    split at read
    case h_1 fault' noString => simp [DataDirective.argument?, noString, Except.toOption]
    case h_2 => simp at read

theorem readUntilFault_image {α : Type} {read : String → Except DataFault α}
    {image? : String → Option (List UInt8)} {image : α → List UInt8}
    (agree : ∀ argument, image? argument = (read argument).toOption.map image)
    (arguments : List String) :
    (readUntilFault read arguments).1.flatMap image =
      (arguments.takeWhile fun argument => (image? argument).isSome).flatMap
        (fun argument => (image? argument).getD []) ∧
    ((readUntilFault read arguments).2 = none ↔
      arguments.all fun argument => (image? argument).isSome) := by
  induction arguments with
  | nil => simp [readUntilFault]
  | cons argument arguments ih =>
    rw [readUntilFault]
    cases first : read argument with
    | error fault =>
      have none : image? argument = none := by rw [agree, first]; rfl
      simp [none]
    | ok a =>
      have some : image? argument = some (image a) := by rw [agree, first]; rfl
      simp [some, ih]

private theorem fillCount?_eq (arguments : List String) :
    fillCount? arguments = (arguments.head?.bind readInteger?).bind fun count =>
      if 0 ≤ count ∧ count < 2 ^ 64 then some count.toNat else none := by
  rw [fillCount?]
  cases arguments.head?.bind readInteger? with
  | none => rfl
  | some count =>
    rw [Option.bind_some]
    cases count with
    | ofNat n =>
      have bound : (0 ≤ (n : Int) ∧ (n : Int) < 2 ^ 64) ↔ n < UInt64.size := by
        rw [UInt64.size]
        omega
      rw [Int.ofNat_eq_natCast, if_congr bound rfl rfl, Int.toNat_natCast]
    | negSucc n => exact (if_neg fun inRange => absurd inRange.1 (by omega)).symm

private theorem fillByte_toOption (arguments : List String) :
    (fillByte arguments).toOption.map ([·]) = (arguments[1]?.map fun argument =>
      (readInteger? argument).bind (integerBytes? 1)).getD (some [0]) := by
  rw [fillByte]
  cases arguments[1]? with
  | none => rfl
  | some argument =>
    have same : (readInteger? argument).bind (integerBytes? 1) =
        ((readInteger? argument).bind (DataItem.ofInt? .one)).map DataItem.bytes := by
      rw [Option.map_bind]
      exact Option.bind_congr fun v _ => (map_bytes_ofInt? .one v).symm
    rw [Option.map_some, Option.getD_some, same]
    cases known : (readInteger? argument).bind (DataItem.ofInt? .one) with
    | none => simp [known, Except.toOption]
    | some item =>
      obtain ⟨v, -, inRange⟩ := Option.bind_eq_some_iff.1 known
      rw [DataItem.ofInt?, Option.ite_none_right_eq_some] at inRange
      obtain rfl := Option.some.inj inRange.2
      simp [known, Except.toOption, DataItem.bytes, DataWidth.bytes]

private theorem fill?_eq (arguments : List String) :
    fill? arguments = (fillBytes arguments).toOption := by
  rw [fill?, fillBytes, fillCount?_eq, ← fillByte_toOption]
  cases arguments.head?.bind readInteger? with
  | none => rfl
  | some count =>
    simp only [Option.bind_eq_bind, Option.bind_some]
    by_cases inRange : 0 ≤ count ∧ count < 2 ^ 64
    · simp only [if_pos inRange]
      cases fillByte arguments with
      | error fault => rfl
      | ok byte => simp [Except.toOption, Except.map]
    · simp only [if_neg inRange]
      cases fillByte arguments <;> rfl

private theorem exists_integers {width : DataWidth} {arguments : List String}
    (faultless : ∀ argument ∈ arguments, ((DataDirective.integers width).argument? argument).isSome) :
    ∃ values : List Int, arguments.mapM readInteger? = some values ∧
      (∀ v ∈ values, -(2 ^ (8 * width.bytes - 1)) ≤ v ∧ v ≤ 2 ^ (8 * width.bytes) - 1) ∧
      (DataDirective.integers width).added arguments =
        values.flatMap fun v => littleEndian width.bytes (v % 2 ^ (8 * width.bytes)) := by
  induction arguments with
  | nil => exact ⟨[], rfl, by simp, rfl⟩
  | cons argument arguments ih =>
    obtain ⟨first, later⟩ := List.forall_mem_cons.1 faultless
    obtain ⟨values, read, within, added⟩ := ih later
    obtain ⟨bytes, known⟩ := Option.isSome_iff_exists.1 first
    obtain ⟨v, value, inRange⟩ := Option.bind_eq_some_iff.1 known
    rw [integerBytes?, Option.ite_none_right_eq_some] at inRange
    obtain ⟨bounds, same⟩ := inRange
    refine ⟨v :: values, by simp [value, read], List.forall_mem_cons.2 ⟨bounds, within⟩, ?_⟩
    rw [List.flatMap_cons, ← added, Option.some.inj same]
    simp [DataDirective.added, known]

namespace TableBuilder

def take (builder : TableBuilder) : BuilderStep → TableBuilder × Option DataFault
  | .define name arguments => builder.define name arguments
  | .pad align => (builder.padTo align, none)

def run (builder : TableBuilder) (steps : List BuilderStep) : TableBuilder :=
  steps.foldl (fun builder step => (builder.take step).1) builder

/-- What every step does to a builder.  Bytes are only appended, and a step that appends none leaves the
finished table as it is. -/
structure Appends (builder : TableBuilder) (step : BuilderStep) (next : TableBuilder)
    (fault : Option DataFault) : Prop where
  label : next.label = builder.label
  align : next.align = builder.align
  bytes : next.bytes = builder.bytes ++ step.added builder.bytes
  faultless : fault = none ↔ step.isFaultless
  finish : step.added builder.bytes = [] → next.finish = builder.finish

private theorem finish_flush (builder : TableBuilder) : builder.flush.finish = builder.finish := by
  simp [finish, flush, DataItem.pack]

theorem appendBytes_nil (builder : TableBuilder) : builder.appendBytes [] = builder := by
  simp [appendBytes]

private theorem finish_appendItems (builder : TableBuilder) {items : List DataItem}
    (empty : items.flatMap DataItem.bytes = []) : (builder.appendItems items).finish = builder.finish := by
  cases items with
  | nil =>
    have same : builder.appendItems [] = builder.flush := by simp [appendItems]
    rw [same, finish_flush]
  | cons item items =>
    obtain ⟨none, -⟩ := List.append_eq_nil_iff.1 (List.flatMap_cons ▸ empty)
    have length := item.length_bytes
    rw [none] at length
    cases width : item.width <;> simp [width, DataWidth.bytes] at length

section Directives

variable {builder : TableBuilder} {name arguments : String} {directive : DataDirective}
  {fault : Option DataFault}

theorem Appends.of_appendItems {items : List DataItem}
    (known : DataDirective.ofName? name = some directive)
    (added : items.flatMap DataItem.bytes = directive.added (splitArguments arguments))
    (faultless : fault = none ↔ directive.isFaultless (splitArguments arguments)) :
    Appends builder (.define name arguments) (builder.appendItems items) fault where
  label := rfl
  align := rfl
  bytes := by rw [bytes_appendItems, added, BuilderStep.added, known]; rfl
  faultless := by rw [faultless, BuilderStep.isFaultless, known]; rfl
  finish := by
    rw [BuilderStep.added, known, Option.map_some, Option.getD_some, ← added]
    exact builder.finish_appendItems

theorem Appends.of_appendBytes {bytes : List UInt8} (known : DataDirective.ofName? name = some directive)
    (added : bytes = directive.added (splitArguments arguments))
    (faultless : fault = none ↔ directive.isFaultless (splitArguments arguments)) :
    Appends builder (.define name arguments) (builder.appendBytes bytes) fault where
  label := rfl
  align := rfl
  bytes := by rw [bytes_appendBytes, added, BuilderStep.added, known]; rfl
  faultless := by rw [faultless, BuilderStep.isFaultless, known]; rfl
  finish := by
    rw [BuilderStep.added, known, Option.map_some, Option.getD_some, ← added]
    rintro rfl
    rw [appendBytes_nil]

private theorem appends_defineAs (known : DataDirective.ofName? name = some directive) :
    Appends builder (.define name arguments) (builder.defineAs directive (splitArguments arguments)).1
      (builder.defineAs directive (splitArguments arguments)).2 := by
  cases directive with
  | integers width =>
    obtain ⟨added, fault⟩ :=
      readUntilFault_image (argument?_integers width) (splitArguments arguments)
    exact .of_appendItems known added fault
  | floats single =>
    obtain ⟨added, fault⟩ := readUntilFault_image (argument?_floats single) (splitArguments arguments)
    exact .of_appendItems known added fault
  | fill =>
    have whole := fill?_eq (splitArguments arguments)
    rw [defineAs]
    cases filled : fillBytes (splitArguments arguments) with
    | error fault =>
      have none : fill? (splitArguments arguments) = none := by rw [whole, filled]; rfl
      have taken : Appends builder (.define name arguments) (builder.appendBytes []) (some fault) :=
        .of_appendBytes known (by simp [DataDirective.added, none])
          (by simp [DataDirective.isFaultless, none])
      rwa [appendBytes_nil] at taken
    | ok bytes =>
      have some : fill? (splitArguments arguments) = some bytes := by rw [whole, filled]; rfl
      exact .of_appendBytes known (by simp [DataDirective.added, some])
        (by simp [DataDirective.isFaultless, some])
  | strings terminated =>
    obtain ⟨added, fault⟩ :=
      readUntilFault_image (argument?_strings terminated) (splitArguments arguments)
    exact .of_appendBytes known (List.flatMap_id.symm.trans added) fault

theorem appends_take (builder : TableBuilder) (step : BuilderStep) :
    Appends builder step (builder.take step).1 (builder.take step).2 := by
  cases step with
  | define name arguments =>
    rw [take, define]
    cases known : DataDirective.ofName? name with
    | none => exact ⟨rfl, rfl, by simp [BuilderStep.added, known],
        by simp [BuilderStep.isFaultless, known], fun _ => rfl⟩
    | some directive => exact appends_defineAs known
  | pad align =>
    refine ⟨rfl, rfl, bytes_padTo builder align, by simp [take, BuilderStep.isFaultless], ?_⟩
    intro none
    have same : builder.padTo align = builder := by
      rw [BuilderStep.added, fewestZeros_eq, ← size_eq_length_bytes] at none
      rw [padTo, none, appendBytes_nil]
    rw [take, same]

end Directives

variable (builder : TableBuilder) (steps : List BuilderStep)

@[simp] theorem run_concat (step : BuilderStep) :
    builder.run (steps ++ [step]) = ((builder.run steps).take step).1 := by
  simp [run]

/-- Every run appends to the image what its steps add, and keeps the label and the alignment. -/
theorem frame_run : (builder.run steps).label = builder.label ∧ (builder.run steps).align = builder.align ∧
    (builder.run steps).bytes =
      steps.foldl (fun image step => image ++ step.added image) builder.bytes := by
  induction steps using List.reverseRecOn with
  | nil => exact ⟨rfl, rfl, rfl⟩
  | append_singleton steps step ih =>
    obtain ⟨label, align, bytes⟩ := ih
    have taken := appends_take (builder.run steps) step
    rw [run_concat]
    refine ⟨taken.label.trans label, taken.align.trans align, ?_⟩
    rw [taken.bytes, bytes, List.foldl_append]
    rfl

end TableBuilder

/-- The text of a line of data that puts bytes at an offset from a symbol: the offset and the number
that the bytes make are written in hexadecimal, the number with two digits for each byte. -/
def IsDatumText (symbol : String) (offset : Nat) (bytes : List UInt8) (text : String) : Prop :=
  ∃ place digits : String,
    text = "DATA " ++ symbol ++ "+0x" ++ place ++ "(SB)/" ++ toString bytes.length ++ ", $0x" ++ digits ∧
    readNumeral? 16 place.toList = some offset ∧
    digits.length = 2 * bytes.length ∧ readNumeral? 16 digits.toList = some (byteValue bytes)

/-- Lines that put an image at the offsets from the given one on, in order: each starts where the one in
front of it ends, and puts one, two, four or eight bytes. -/
inductive Tiles (symbol : String) : Nat → List UInt8 → List String → Prop
  | nil (offset : Nat) : Tiles symbol offset [] []
  | cons {offset : Nat} {bytes image : List UInt8} {text : String} {texts : List String}
    (width : bytes.length ∈ [1, 2, 4, 8]) (written : IsDatumText symbol offset bytes text)
    (rest : Tiles symbol (offset + bytes.length) image texts) :
    Tiles symbol offset (bytes ++ image) (text :: texts)

/-- What a finished table is that holds an image: its lines tile the image, and both its size and the
size that its last line gives are the number of the bytes. -/
structure DataTable.Holds (table : DataTable) (label : String) (align : Nat) (image : List UInt8) :
    Prop where
  lines : ∃ texts, Tiles (goSymbol label) 0 image texts ∧ table.lines.map GoLine.text =
    texts ++ ["GLOBL " ++ goSymbol label ++ "(SB), 8, $" ++ toString image.length]
  size : table.size = image.length
  label : table.label = label
  align : table.align = align

private theorem length_hexDigits {places n : Nat} (positive : 0 < places) (small : n < 16 ^ places) :
    (hexDigits places n).length = places := by
  have fits := Nat.toDigits_length 16 n places positive small
  rw [hexDigits, String.length_ofList, List.length_leftpad]
  omega

private theorem isDatumText_datum (symbol : String) (offset : Nat) (item : DataItem) :
    IsDatumText symbol offset item.bytes (GoLine.datum symbol offset item).text := by
  have range : item.value.toNat < 16 ^ (2 * item.width.bytes) := by
    have bound := item.value.isLt
    have power : 2 ^ item.width.bits = 16 ^ (2 * item.width.bytes) := by
      cases item.width <;> rfl
    rwa [power] at bound
  have positive : 0 < 2 * item.width.bytes := by
    cases item.width <;> decide
  refine ⟨hexDigits 3 offset, hexDigits (2 * item.width.bytes) item.value.toNat, ?_,
    readNumeral?_hexDigits 3 offset, ?_, ?_⟩
  · rw [item.length_bytes]
    rfl
  · rw [length_hexDigits positive range, item.length_bytes]
  · have value : byteValue item.bytes = item.value.toNat := by
      rw [item.bytes_eq_littleEndian, byteValue_littleEndian, Nat.mod_eq_of_lt]
      rwa [Nat.pow_mul] at range
    rw [readNumeral?_hexDigits, value]

private theorem tiles_datumLines (symbol : String) (offset : Nat) (items : List DataItem) :
    Tiles symbol offset (items.flatMap DataItem.bytes)
      ((datumLines symbol offset items).map GoLine.text) := by
  induction items generalizing offset with
  | nil => exact .nil offset
  | cons item items ih =>
    have width : item.bytes.length ∈ [1, 2, 4, 8] := by
      rw [item.length_bytes]
      cases item.width <;> decide
    rw [List.flatMap_cons, datumLines, List.map_cons]
    refine .cons width (isDatumText_datum symbol offset item) ?_
    rw [item.length_bytes]
    exact ih (offset + item.width.bytes)

namespace TableBuilder

/-- What a step does to a builder, numbers and fills in particular. -/
structure Takes (builder : TableBuilder) (step : BuilderStep) (next : TableBuilder)
    (fault : Option DataFault) : Prop extends Appends builder step next fault where
  integers {name arguments : String} {width : DataWidth} (isDefine : step = .define name arguments)
    (known : DataDirective.ofName? name = some (.integers width)) (noFault : fault = none) :
    ∃ values : List Int, (splitArguments arguments).mapM readInteger? = some values ∧
      (∀ v ∈ values, -(2 ^ (8 * width.bytes - 1)) ≤ v ∧ v ≤ 2 ^ (8 * width.bytes) - 1) ∧
      next.bytes = builder.bytes ++
        values.flatMap fun v => littleEndian width.bytes (v % 2 ^ (8 * width.bytes))
  fill {name arguments : String} (isDefine : step = .define name arguments)
    (known : DataDirective.ofName? name = some .fill) (faulty : fault ≠ none) : next = builder

private theorem takes_take (builder : TableBuilder) (step : BuilderStep) :
    Takes builder step (builder.take step).1 (builder.take step).2 where
  toAppends := appends_take builder step
  integers := by
    rintro name arguments width rfl known noFault
    have appends := appends_take builder (.define name arguments)
    have faultless := appends.faultless.1 noFault
    rw [BuilderStep.isFaultless, known, Option.any_some] at faultless
    obtain ⟨values, read, within, added⟩ := exists_integers (List.all_eq_true.1 faultless)
    refine ⟨values, read, within, ?_⟩
    rw [appends.bytes, BuilderStep.added, known, Option.map_some, Option.getD_some, added]
  fill := by
    rintro name arguments rfl known faulty
    rw [take, define, known] at faulty ⊢
    simp only [defineAs] at faulty ⊢
    split at faulty
    case h_1 => rfl
    case h_2 => exact absurd rfl faulty

theorem size_finish (builder : TableBuilder) : builder.finish.size = builder.bytes.length := by
  rw [DataTable.size_eq_length_bytes, bytes_finish]

private theorem holds_finish (builder : TableBuilder) :
    builder.finish.Holds builder.label builder.align builder.bytes where
  lines := by
    have tiles := tiles_datumLines (goSymbol builder.label) 0 builder.finish.items
    rw [← DataTable.bytes, bytes_finish] at tiles
    refine ⟨_, tiles, ?_⟩
    rw [DataTable.lines, List.map_append, size_finish]
    rfl
  size := builder.size_finish
  label := rfl
  align := rfl

/-- However a builder is told to take steps, those with faults included, its table holds the image that
the steps make one after another; each further step appends to the image what it adds. -/
theorem holds_run (label : String) (align : Nat) (steps : List BuilderStep) :
    (run { label, align } steps).finish.Holds label align (BuilderStep.image steps) ∧
    ∀ step, Takes (run { label, align } steps) step ((run { label, align } steps).take step).1
      ((run { label, align } steps).take step).2 := by
  obtain ⟨sameLabel, sameAlign, bytes⟩ := frame_run { label, align } steps
  have holds := holds_finish (run { label, align } steps)
  rw [sameLabel, sameAlign, bytes] at holds
  exact ⟨holds, takes_take _⟩

end TableBuilder

end AsmTranslit
