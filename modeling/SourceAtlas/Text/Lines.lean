set_option autoImplicit false

namespace SourceAtlas.Text

/-- The pieces between the separators: one more piece than there are separators. -/
def pieces (separator : Char) : List Char → List (List Char)
  | [] => [[]]
  | c :: cs =>
    match pieces separator cs with
    | [] => [[c]]
    | first :: rest => if c = separator then [] :: first :: rest else (c :: first) :: rest

def joined (separator : Char) : List (List Char) → List Char
  | [] => []
  | [piece] => piece
  | piece :: next :: rest => piece ++ separator :: joined separator (next :: rest)

theorem pieces_ne_nil (separator : Char) (cs : List Char) : pieces separator cs ≠ [] := by
  cases cs with
  | nil => simp [pieces]
  | cons c cs =>
    simp only [pieces]
    split
    · simp
    · split <;> simp

theorem joined_pieces (separator : Char) (cs : List Char) :
    joined separator (pieces separator cs) = cs := by
  induction cs with
  | nil => rfl
  | cons c cs ih =>
    simp only [pieces]
    split
    · next h => exact absurd h (pieces_ne_nil separator cs)
    · next first rest h =>
      rw [h] at ih
      split
      · next hc => simp [joined, ih, hc]
      · cases rest with
        | nil => simpa [joined] using ih
        | cons next more => simpa [joined] using ih

theorem separator_not_mem_pieces (separator : Char) (cs : List Char) :
    ∀ piece ∈ pieces separator cs, separator ∉ piece := by
  induction cs with
  | nil => simp [pieces]
  | cons c cs ih =>
    simp only [pieces]
    split
    · next h => exact absurd h (pieces_ne_nil separator cs)
    · next first rest h =>
      rw [h] at ih
      split
      · intro piece hp
        rcases List.mem_cons.1 hp with rfl | hp
        · simp
        · exact ih piece hp
      · next hc =>
        intro piece hp
        rcases List.mem_cons.1 hp with rfl | hp
        · have := ih first (by simp)
          simp only [List.mem_cons, not_or]
          exact ⟨fun e => hc e.symm, this⟩
        · exact ih piece (by simp [hp])

def splitAt (separator : Char) (text : String) : List String :=
  (pieces separator text.toList).map String.ofList

def dropReturn (line : List Char) : List Char :=
  match line.reverse with
  | '\r' :: rest => rest.reverse
  | _ => line

/-- The lines of a text: a line feed ends a line, a carriage return right before it belongs to it,
and what follows the last line feed is a line if it is not empty. -/
def lines (cs : List Char) : List (List Char) :=
  let all := pieces '\n' cs
  match all.reverse with
  | [] => []
  | last :: ended =>
    let whole := ended.reverse.map dropReturn
    if last = [] then whole else whole ++ [last]

end SourceAtlas.Text
