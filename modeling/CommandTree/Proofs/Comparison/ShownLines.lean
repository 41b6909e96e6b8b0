import CommandTree.Proofs.Comparison.LineChanges

/-!
# Lines that are shown

A run of lines is shown with a mark in front of each line, but without a last line that is empty and
without the carriage returns at the ends of its other lines. What is left out is never made up for
by another run: what is shown of all runs is as much as there is only if each is shown in full. So
the lines of one text can be read off the marked lines exactly if every run of them is shown in
full.
-/

set_option autoImplicit false

namespace CommandTree.LineDiff

/-! ## Shown lines -/

/-- The lines of a run are shown as they are: the last one is not empty, and no other ends in a
carriage return. -/
def ShownInFull (lines : List (List Char)) : Prop :=
  lines.getLast? ≠ some [] ∧ ∀ line ∈ lines.dropLast, line.getLast? ≠ some '\r'

instance (lines : List (List Char)) : Decidable (ShownInFull lines) :=
  inferInstanceAs (Decidable (_ ∧ _))

/-- The number of characters in lines that end in a newline. -/
def weight : List (List Char) → Nat
  | [] => 0
  | line :: lines => line.length + 1 + weight lines

/-- The weight of lines is the sum of the weights of their parts. -/
theorem weight_append (lines lines' : List (List Char)) :
    weight (lines ++ lines') = weight lines + weight lines' := by
  induction lines with
  | nil => simp [weight]
  | cons line lines ih =>
    rw [List.cons_append, weight, ih, weight]
    omega

/-- Dropping a carriage return makes no line longer. -/
theorem length_dropReturn_le (line : List Char) : (dropReturn line).length ≤ line.length := by
  unfold dropReturn
  split
  · simp
  · exact Nat.le_refl _

/-- What is shown of a run weighs no more than the run. -/
theorem weight_shownLines_le (lines : List (List Char)) :
    weight (shownLines lines) ≤ weight lines := by
  fun_induction shownLines lines with
  | case1 => exact Nat.le_refl _
  | case2 => exact Nat.zero_le _
  | case3 => exact Nat.le_refl _
  | case4 line next lines ih =>
    have hline := length_dropReturn_le line
    simp only [weight] at ih ⊢
    omega

/-- What is shown of runs weighs no more than all their lines. -/
theorem weight_flatMap_shownLines_le (parts : List (List (List Char))) :
    weight (parts.flatMap shownLines) ≤ weight parts.flatten := by
  induction parts with
  | nil => exact Nat.le_refl _
  | cons part parts ih =>
    have hpart := weight_shownLines_le part
    rw [List.flatMap_cons, List.flatten_cons, weight_append, weight_append]
    omega

/-- A line that ends in a carriage return gets shorter, which is why it is not shown in full. -/
theorem length_dropReturn_lt {line : List Char} (h : line.getLast? = some '\r') :
    (dropReturn line).length < line.length := by
  have hpos : 0 < line.length := by
    rw [List.length_pos_iff]
    rintro rfl
    contradiction
  rw [dropReturn, if_pos h, List.length_dropLast]
  omega

/-- Dropping a carriage return adds no character. -/
theorem dropReturn_subset (line : List Char) : dropReturn line ⊆ line := by
  unfold dropReturn
  split
  · exact List.dropLast_subset line
  · exact List.Subset.refl line

/-- A line stays as it is exactly if it does not end in a carriage return. -/
theorem dropReturn_eq_iff (line : List Char) :
    dropReturn line = line ↔ line.getLast? ≠ some '\r' := by
  constructor
  · intro heq hreturn
    have hlt := length_dropReturn_lt hreturn
    rw [heq] at hlt
    exact Nat.lt_irrefl _ hlt
  · intro hreturn
    rw [dropReturn, if_neg hreturn]

/-- What is shown of a run are characters of its lines. -/
theorem exists_of_mem_shownLines {lines : List (List Char)} {shown : List Char}
    (h : shown ∈ shownLines lines) : ∃ line ∈ lines, shown ⊆ line := by
  fun_induction shownLines lines with
  | case1 => contradiction
  | case2 => contradiction
  | case3 last => exact ⟨shown, h, List.Subset.refl shown⟩
  | case4 line next lines ih =>
    rcases List.mem_cons.mp h with rfl | h
    · exact ⟨line, List.mem_cons_self, dropReturn_subset line⟩
    · obtain ⟨line', hmem, hsubset⟩ := ih h
      exact ⟨line', List.mem_cons_of_mem _ hmem, hsubset⟩

/-- A run is shown as it is exactly if it is shown in full. -/
theorem shownLines_eq_iff (lines : List (List Char)) :
    shownLines lines = lines ↔ ShownInFull lines := by
  fun_induction shownLines lines with
  | case1 => simp [ShownInFull]
  | case2 last hempty => simp_all [ShownInFull]
  | case3 last hempty => simp_all [ShownInFull]
  | case4 line next lines ih =>
    rw [List.cons.injEq, dropReturn_eq_iff, ih]
    simp only [ShownInFull, List.getLast?_cons_cons, List.dropLast_cons_cons,
      List.forall_mem_cons]
    exact and_left_comm

/-- Where not a character is missing, no line is. -/
theorem shownLines_eq_of_weight_le {lines : List (List Char)}
    (h : weight lines ≤ weight (shownLines lines)) : shownLines lines = lines := by
  fun_induction shownLines lines with
  | case1 => rfl
  | case2 => simp [weight] at h
  | case3 => rfl
  | case4 line next lines ih =>
    have hline := length_dropReturn_le line
    have hrest := weight_shownLines_le (next :: lines)
    simp only [weight] at h hrest ih
    have hsame : dropReturn line = line := by
      rw [dropReturn_eq_iff]
      intro hreturn
      have hlt := length_dropReturn_lt hreturn
      omega
    rw [hsame, ih (by omega)]

/-- Lines that are shown part by part are all there exactly if no part lacks one. -/
theorem flatMap_shownLines_eq_iff (parts : List (List (List Char))) :
    parts.flatMap shownLines = parts.flatten ↔ ∀ part ∈ parts, ShownInFull part := by
  induction parts with
  | nil => simp
  | cons part parts ih =>
    rw [List.flatMap_cons, List.flatten_cons, List.forall_mem_cons, ← ih, ← shownLines_eq_iff]
    constructor
    · intro h
      have hweight := congrArg weight h
      rw [weight_append, weight_append] at hweight
      -- neither the part nor the others show more than there is, so both show all of it
      have hpart := weight_shownLines_le part
      have hparts := weight_flatMap_shownLines_le parts
      have hle : weight part ≤ weight (shownLines part) := by omega
      have hsame := shownLines_eq_of_weight_le hle
      rw [hsame] at h
      exact ⟨hsame, List.append_cancel_left h⟩
    · rintro ⟨hpart, hparts⟩
      rw [hpart, hparts]

/-! ## Marks -/

/-- The lines of a difference without those of a mark, and without the marks of the others. -/
def unmarked (mark : Char) (shown : List String) : List (List Char) :=
  (shown.filter fun line => line.toList.head? != some mark).map fun line => line.toList.tail

/-- Lines that are marked alike have the same fate. -/
theorem Fate.mark_inj {fate fate' : Fate} (h : fate.mark = fate'.mark) : fate = fate' := by
  cases fate <;> cases fate' <;> first | rfl | exact absurd h (by decide)

/-- A run of lines of one fate is shown with the mark of that fate in front of each line. -/
theorem showRun_eq (fate : Fate) (lines : List (List Char)) :
    showRun (lines.map (.mk fate)) =
      (shownLines lines).map fun line => String.ofList (fate.mark :: line) := by
  cases lines with
  | nil => rfl
  | cons line lines => simp [showRun, Function.comp_def]

/-- Taking away a mark is done for each part of what is shown on its own. -/
theorem unmarked_append (mark : Char) (shown shown' : List String) :
    unmarked mark (shown ++ shown') = unmarked mark shown ++ unmarked mark shown' := by
  rw [unmarked, List.filter_append, List.map_append, unmarked, unmarked]

variable {cs run : List (Change (List Char))}

/-- A run without the mark of a fate shows its lines of the other fates. -/
theorem unmarked_showRun (h : run ∈ runs cs) (fate : Fate) :
    unmarked fate.mark (showRun run) = shownLines (without fate run) := by
  obtain ⟨fate', lines, -, rfl⟩ := exists_fate_of_mem_runs h
  rw [showRun_eq]
  by_cases hfate : fate' = fate
  · subst hfate
    rw [without_of_eq]
    simp [unmarked, List.filter_map, Function.comp_def, shownLines]
  · have hmark : fate'.mark ≠ fate.mark := fun hmark => hfate (Fate.mark_inj hmark)
    rw [without_of_ne hfate]
    simp [unmarked, List.filter_map, Function.comp_def, hmark]

/-- The runs of a difference without the mark of a fate show what each of them has of the other
fates. -/
theorem unmarked_flatMap_showRun {rs : List (List (Change (List Char)))}
    (h : ∀ run ∈ rs, run ∈ runs cs) (fate : Fate) :
    unmarked fate.mark (rs.flatMap showRun) = (rs.map (without fate)).flatMap shownLines := by
  induction rs with
  | nil => rfl
  | cons run rs ih =>
    obtain ⟨hrun, hrs⟩ := List.forall_mem_cons.mp h
    rw [List.flatMap_cons, unmarked_append, unmarked_showRun hrun, ih hrs, List.map_cons,
      List.flatMap_cons]

/-- The lines of one text are read off the shown ones exactly if every run of them is shown in
full. -/
theorem unmarked_runs_eq_iff (fate : Fate) (cs : List (Change (List Char))) :
    unmarked fate.mark ((runs cs).flatMap showRun) = without fate cs ↔
      ∀ run ∈ runs cs, ShownInFull (without fate run) := by
  have hflat : (runs cs).flatMap (without fate) = ((runs cs).map (without fate)).flatten :=
    List.flatMap_def
  rw [unmarked_flatMap_showRun (fun _ h => h), without_eq_flatMap, hflat,
    flatMap_shownLines_eq_iff, List.forall_mem_map]

end CommandTree.LineDiff
