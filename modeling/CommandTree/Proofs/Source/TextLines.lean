import CommandTree.Source

/-!
# Lines of texts

The lines of a text end in newlines, except that the last one need not. They are what a source makes
of the text, and behind the first of them stand the lines of the rest of the text.
-/

set_option autoImplicit false

namespace CommandTree.Source

/-- The lines of a text, each with its newline if it has one. -/
def textLines : List Char → List (List Char)
  | [] => []
  | c :: cs =>
    if c = '\n' then [c] :: textLines cs
    else
      match textLines cs with
      | [] => [[c]]
      | line :: lines => (c :: line) :: lines

/-- The lines of a text put one behind the other are the text. -/
theorem flatten_textLines (text : List Char) : (textLines text).flatten = text := by
  induction text with
  | nil => rfl
  | cons c cs ih =>
    rw [textLines]
    split
    · rw [List.flatten_cons, ih, List.singleton_append]
    · split
      · rename_i hlines
        rw [hlines] at ih
        rw [← ih]
        rfl
      · rename_i hlines
        rw [hlines] at ih
        rw [← ih]
        rfl

/-- A line is not empty, and it has no newline but at the end. -/
theorem of_mem_textLines {text line : List Char} (h : line ∈ textLines text) :
    line ≠ [] ∧ '\n' ∉ line.dropLast := by
  induction text generalizing line with
  | nil => contradiction
  | cons c cs ih =>
    rw [textLines] at h
    split at h
    · rcases List.mem_cons.mp h with rfl | hmem
      · simp
      · exact ih hmem
    · rename_i hc
      split at h
      · obtain rfl := List.mem_singleton.mp h
        simp
      · rename_i first lines hlines
        rw [hlines] at ih
        rcases List.mem_cons.mp h with rfl | hmem
        · obtain ⟨hne, hnewline⟩ := ih List.mem_cons_self
          refine ⟨List.cons_ne_nil c first, ?_⟩
          rw [List.dropLast_cons_of_ne_nil hne, List.mem_cons, not_or]
          exact ⟨Ne.symm hc, hnewline⟩
        · exact ih (List.mem_cons_of_mem first hmem)

/-- A source takes an undamaged text line by line. -/
theorem ofChars_eq (text : List Char) :
    ofChars text = ⟨(textLines text).map Line.ofChars, .endOfInput⟩ := by
  have hcut : textLines text = (cut (· == '\n') text).1 ++
      if (cut (· == '\n') text).2.isEmpty then [] else [(cut (· == '\n') text).2] := by
    induction text with
    | nil => rfl
    | cons c cs ih =>
      rw [textLines, ih, cut_cons]
      rcases cut (· == '\n') cs with ⟨pieces, remainder⟩
      by_cases hc : c = '\n'
      · simp [cutStep, hc]
      · cases pieces with
        | nil => cases remainder <;> simp [cutStep, hc]
        | cons piece pieces => simp [cutStep, hc]
  rw [hcut, ofChars]
  rcases cut (· == '\n') text with ⟨pieces, remainder⟩
  cases remainder <;> simp

/-- The first line of a text ends in a newline unless it is the last one, and the other lines are
those of the text behind it. -/
theorem exists_textLines_cons (c : Char) (cs : List Char) :
    ∃ others rest, cs = others ++ rest ∧
      textLines (c :: cs) = (c :: others) :: textLines rest ∧
      (rest ≠ [] → (c :: others).getLast? = some '\n') := by
  by_cases hc : c = '\n'
  · exact ⟨[], cs, rfl, by rw [textLines, if_pos hc], fun _ => by simp [hc]⟩
  induction cs generalizing c with
  | nil => exact ⟨[], [], rfl, by simp [textLines], fun h => absurd rfl h⟩
  | cons d cs ih =>
    by_cases hd : d = '\n'
    · exact ⟨['\n'], cs, by simp [hd], by simp [textLines, hc, hd], fun _ => rfl⟩
    obtain ⟨others, rest, hcs, hlines, hlast⟩ := ih d hd
    refine ⟨d :: others, rest, by simp [hcs], ?_, fun h => by simpa using hlast h⟩
    rw [textLines, if_neg hc, hlines]

end CommandTree.Source
