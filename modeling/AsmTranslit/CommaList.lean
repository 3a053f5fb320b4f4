import AsmTranslit.WhiteSpace

/-!
# Comma lists

Lists of texts separated by commas, where some commas do not separate: those between braces in
operands, those inside strings in data.  A state that follows the text tells which commas count.
Joining the pieces with commas gives the text back.
-/

namespace AsmTranslit

/-- The pieces between the characters at which `cut` holds in the state that `step` has reached. -/
def pieces {σ : Type} (step : σ → Char → σ) (cut : σ → Char → Bool) (state : σ) :
    List Char → List (List Char)
  | [] => [[]]
  | c :: cs =>
    if cut state c then [] :: pieces step cut state cs
    else
      match pieces step cut (step state c) cs with
      | piece :: rest => (c :: piece) :: rest
      | [] => [[c]]

def fields (parts : List (List Char)) : List String :=
  match parts.map trim with
  | [[]] => []
  | trimmed => trimmed.map String.ofList

def commaPieces (cs : List Char) : List (List Char) :=
  pieces (fun _ _ => ()) (fun _ c => c == ',') () cs

/-- How many braces are open after a character; a closing brace without an opening one counts
for nothing. -/
def braceDepth (depth : Nat) : Char → Nat
  | '\x7b' => depth + 1
  | '\x7d' => depth - 1
  | _ => depth

/-- The operand texts of an instruction, separated by the commas outside braces. -/
def splitOperands (text : String) : List String :=
  fields (pieces braceDepth (fun depth c => depth == 0 && c == ',') 0 text.toList)

theorem pieces_ne_nil {σ : Type} (step : σ → Char → σ) (cut : σ → Char → Bool) (state : σ)
    (cs : List Char) : pieces step cut state cs ≠ [] := by
  cases cs with
  | nil => simp [pieces]
  | cons c cs =>
    unfold pieces
    split
    · simp
    · split <;> simp

theorem pieces_of_forall {cut : Char → Bool} {cs : List Char} (h : ∀ c ∈ cs, cut c = false) :
    pieces (fun _ _ => ()) (fun _ => cut) () cs = [cs] := by
  induction cs with
  | nil => rfl
  | cons c cs ih =>
    have later := ih fun d hd => h d (by simp [hd])
    simp [pieces, h c (by simp), later]

theorem pieces_append_cons {cut : Char → Bool} {cs : List Char} {c : Char} (rest : List Char)
    (h : ∀ c ∈ cs, cut c = false) (hc : cut c = true) :
    pieces (fun _ _ => ()) (fun _ => cut) () (cs ++ c :: rest) =
      cs :: pieces (fun _ _ => ()) (fun _ => cut) () rest := by
  induction cs with
  | nil => simp [pieces, hc]
  | cons d cs ih =>
    have later := ih fun e he => h e (by simp [he])
    simp [pieces, h d (by simp), later]

end AsmTranslit
