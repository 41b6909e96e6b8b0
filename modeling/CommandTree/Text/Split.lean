/-!
# Cutting texts at a separator

A text with `n` separators has `n + 1` parts, some of which may be empty. Putting the separators
back between the parts gives the text again.
-/

set_option autoImplicit false

namespace CommandTree.Split

/-- Adds a character in front of the parts of a text. -/
def step (separator c : Char) : List (List Char) → List (List Char)
  | [] => [[c]]
  | part :: parts => if c = separator then [] :: part :: parts else (c :: part) :: parts

/-- The parts of a text between the separators. -/
def parts (separator : Char) (cs : List Char) : List (List Char) :=
  cs.foldr (step separator) [[]]

/-- The text of parts with separators between them. -/
def join (separator : Char) : List (List Char) → List Char
  | [] => []
  | [part] => part
  | part :: next :: rest => part ++ separator :: join separator (next :: rest)

/-- The empty text has one part, which is empty. -/
@[simp] theorem parts_nil (separator : Char) : parts separator [] = [[]] := rfl

/-- A character starts a new part or belongs to the first one. -/
@[simp] theorem parts_cons (separator c : Char) (cs : List Char) :
    parts separator (c :: cs) = step separator c (parts separator cs) := rfl

/-- Every text has a part. -/
theorem parts_ne_nil (separator : Char) (cs : List Char) : parts separator cs ≠ [] := by
  cases cs with
  | nil => simp
  | cons c cs =>
    rw [parts_cons]
    unfold step
    split
    · simp
    · split <;> simp

/-- A text without the separator is its only part. -/
theorem parts_of_notMem {separator : Char} {part : List Char} (h : separator ∉ part) :
    parts separator part = [part] := by
  induction part with
  | nil => rfl
  | cons c part ih =>
    obtain ⟨hne, hrest⟩ : separator ≠ c ∧ separator ∉ part := by simpa using h
    rw [parts_cons, ih hrest, step, if_neg (Ne.symm hne)]

/-- A separator ends a part, so the texts on either side of it are cut independently. -/
theorem parts_append (separator : Char) (cs ds : List Char) :
    parts separator (cs ++ separator :: ds) = parts separator cs ++ parts separator ds := by
  induction cs with
  | nil =>
    obtain ⟨first, others, hparts⟩ := List.exists_cons_of_ne_nil (parts_ne_nil separator ds)
    rw [List.nil_append, parts_cons, hparts, step, if_pos rfl]
    rfl
  | cons c cs ih =>
    obtain ⟨first, others, hparts⟩ := List.exists_cons_of_ne_nil (parts_ne_nil separator cs)
    rw [List.cons_append, parts_cons, parts_cons, ih, hparts, List.cons_append, step, step]
    split <;> rfl

/-- Joining the parts with the separator gives the text back. -/
theorem join_parts (separator : Char) (cs : List Char) :
    join separator (parts separator cs) = cs := by
  induction cs with
  | nil => rfl
  | cons c cs ih =>
    rw [parts_cons]
    obtain ⟨part, others, h⟩ := List.exists_cons_of_ne_nil (parts_ne_nil separator cs)
    rw [h] at ih ⊢
    simp only [step]
    split
    · rename_i hc
      subst hc
      rw [join, ih, List.nil_append]
    · cases others with
      | nil => simpa [join] using ih
      | cons next rest =>
        rw [join] at ih ⊢
        rw [List.cons_append, ih]

end CommandTree.Split
