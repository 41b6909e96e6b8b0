import CommandTree.LineDiff
import Mathlib.Data.List.SplitBy

/-!
# Changes keep both texts

The lines that the table of two texts leads to are lines of both, in the order of each. The changes
that are made of them therefore hold both texts: without the lines that were added they are the one,
and without those that were removed they are the other. Cutting the changes into runs loses nothing
either, and the lines of a run share their fate.

None of this depends on what the table holds. It only decides how many lines are common. Of two
equal texts all lines are, because equal lines are followed without a look at the table.
-/

set_option autoImplicit false

namespace CommandTree.LineDiff

variable {α : Type}

section Common

variable [DecidableEq α]

/-! ## Common lines -/

/-- What is collected on the way back consists of lines of both lists. -/
theorem exists_follow (width : Nat) (table : Array Nat) (old new found : List α) :
    ∃ kept : List α, follow width table old new found = kept.reverse ++ found ∧ kept.Sublist old ∧
      kept.Sublist new := by
  -- the table only decides between leaving out a line of the one list or of the other
  fun_induction follow width table old new found with
  | case1 old a new found ih =>
    obtain ⟨kept, heq, hold, hnew⟩ := ih
    exact ⟨a :: kept, by simp [heq], hold.cons_cons a, hnew.cons_cons a⟩
  | case2 => exact ⟨[], rfl, List.nil_sublist _, List.nil_sublist _⟩
  | case3 a old b new found _ _ _ ih =>
    obtain ⟨kept, heq, hold, hnew⟩ := ih
    exact ⟨kept, heq, hold, hnew.cons b⟩
  | case4 a old b new found _ _ _ ih =>
    obtain ⟨kept, heq, hold, hnew⟩ := ih
    exact ⟨kept, heq, hold.cons a, hnew⟩
  | case5 => exact ⟨[], rfl, List.nil_sublist _, List.nil_sublist _⟩

/-- What two lists have in common is a sublist of both of them. -/
theorem common_sublist (old new : List α) :
    (common old new).Sublist old ∧ (common old new).Sublist new := by
  obtain ⟨kept, heq, hold, hnew⟩ :=
    exists_follow new.length (tableOf old new) old.reverse new.reverse []
  have hcommon : common old new = kept.reverse := by rw [common, heq, List.append_nil]
  rw [hcommon]
  exact ⟨List.reverse_sublist.mp (by simpa using hold),
    List.reverse_sublist.mp (by simpa using hnew)⟩

/-- In two equal lists every line is found to be common, whatever the table says. -/
theorem follow_self (width : Nat) (table : Array Nat) (lines found : List α) :
    follow width table lines lines found = lines.reverse ++ found := by
  induction lines generalizing found with
  | nil => simp [follow]
  | cons line lines ih =>
    rw [follow, if_pos rfl, ih]
    simp

/-- A list has all of its lines in common with itself. -/
theorem common_self (lines : List α) : common lines lines = lines := by
  rw [common, follow_self]
  simp

end Common

/-! ## Changes -/

/-- The lines of changes that do not have a certain fate. -/
def without (fate : Fate) (changes : List (Change α)) : List α :=
  (changes.filter (·.fate != fate)).map Change.line

/-- Leaving out the lines of a fate is done for each part of the changes on its own. -/
theorem without_append (fate : Fate) (changes changes' : List (Change α)) :
    without fate (changes ++ changes') = without fate changes ++ without fate changes' := by
  rw [without, List.filter_append, List.map_append, without, without]

/-- Without the lines of their fate nothing is left of lines that share it. -/
theorem without_of_eq (fate : Fate) (lines : List α) :
    without fate (lines.map (.mk fate)) = [] := by
  simp [without]

/-- Lines of another fate are all left. -/
theorem without_of_ne {fate fate' : Fate} (h : fate' ≠ fate) (lines : List α) :
    without fate (lines.map (.mk fate')) = lines := by
  simp [without, List.filter_map, Function.comp_def, h]

section Changes

variable [DecidableEq α]

/-- A common line that is next is found behind the lines that are not common, and the other common
lines behind it. -/
theorem exists_dropWhile_of_sublist {c : α} {cs lines : List α} (h : (c :: cs).Sublist lines) :
    ∃ rest, lines.dropWhile (· != c) = c :: rest ∧ cs.Sublist rest := by
  induction lines with
  | nil => contradiction
  | cons line lines ih =>
    by_cases heq : line = c
    · subst heq
      exact ⟨lines, by simp, List.cons_sublist_cons.mp h⟩
    · have hrest : (c :: cs).Sublist lines := by
        cases h with
        | cons _ hrest => exact hrest
        | cons_cons => exact absurd rfl heq
      obtain ⟨rest, hdrop, hcs⟩ := ih hrest
      exact ⟨rest, by simp [heq, hdrop], hcs⟩

/-- Changes hold both lists of lines. -/
theorem without_changes {common old new : List α} (hold : common.Sublist old)
    (hnew : common.Sublist new) :
    without .added (changes common old new) = old ∧
      without .removed (changes common old new) = new := by
  induction common generalizing old new with
  | nil =>
    constructor
    · rw [changes, without_append, without_of_ne (by decide), without_of_eq, List.append_nil]
    · rw [changes, without_append, without_of_eq, without_of_ne (by decide), List.nil_append]
  | cons c common ih =>
    obtain ⟨oldRest, holdRest, hold'⟩ := exists_dropWhile_of_sublist hold
    obtain ⟨newRest, hnewRest, hnew'⟩ := exists_dropWhile_of_sublist hnew
    obtain ⟨ihOld, ihNew⟩ := ih hold' hnew'
    have hcons : ∀ {fate : Fate} (cs : List (Change α)), Fate.kept ≠ fate →
        without fate (.mk .kept c :: cs) = c :: without fate cs := by
      intro fate cs hne
      simp [without, hne]
    rw [changes, holdRest, hnewRest, List.tail_cons, List.tail_cons]
    constructor
    · rw [without_append, without_append, without_of_ne (by decide), without_of_eq,
        hcons _ (by decide), ihOld, List.append_nil, ← holdRest, List.takeWhile_append_dropWhile]
    · rw [without_append, without_append, without_of_eq, without_of_ne (by decide),
        hcons _ (by decide), ihNew, List.nil_append, ← hnewRest, List.takeWhile_append_dropWhile]

/-- Between a list and itself all lines are kept. -/
theorem changes_self (lines : List α) : changes lines lines lines = lines.map (.mk .kept) := by
  induction lines with
  | nil => rfl
  | cons line lines ih => simp [changes, ih]

end Changes

/-- Where every line is kept, both lists are the same. -/
theorem without_eq_of_forall_kept {changes : List (Change α)} (h : ∀ c ∈ changes, c.fate = .kept)
    {fate : Fate} (hne : Fate.kept ≠ fate) : without fate changes = changes.map Change.line := by
  have hall : ∀ c ∈ changes, (c.fate != fate) = true := fun c hc => by simp [h c hc, hne]
  rw [without, List.filter_eq_self.mpr hall]

/-! ## Runs -/

/-- The runs put one behind the other are all changes. -/
theorem flatten_runs (changes : List (Change α)) : (runs changes).flatten = changes :=
  List.flatten_splitBy _ _

/-- A run holds no change that was not made. -/
theorem mem_of_mem_runs {changes run : List (Change α)} (h : run ∈ runs changes) {c : Change α}
    (hc : c ∈ run) : c ∈ changes := by
  rw [← flatten_runs changes]
  exact List.mem_flatten.mpr ⟨run, h, hc⟩

/-- A run consists of lines that share a fate, and has one. -/
theorem exists_fate_of_mem_runs {changes run : List (Change α)} (h : run ∈ runs changes) :
    ∃ fate lines, lines ≠ [] ∧ run = lines.map (.mk fate) := by
  have hne : run ≠ [] := List.ne_nil_of_mem_splitBy h
  have hchain := List.isChain_of_mem_splitBy h
  clear h
  induction run with
  | nil => contradiction
  | cons c cs ih =>
    cases cs with
    | nil => exact ⟨c.fate, [c.line], List.cons_ne_nil _ _, rfl⟩
    | cons c' cs =>
      obtain ⟨hfate, hrest⟩ := List.isChain_cons_cons.mp hchain
      obtain ⟨fate, lines, -, heq⟩ := ih (List.cons_ne_nil _ _) hrest
      have hsame : c.fate = fate := by
        have hfirst : ∀ c'' ∈ c' :: cs, c''.fate = fate := by simp [heq]
        rw [beq_iff_eq.mp hfate, hfirst c' List.mem_cons_self]
      exact ⟨fate, c.line :: lines, List.cons_ne_nil _ _, by rw [heq, List.map_cons, ← hsame]⟩

/-- The lines of changes that share a fate are the lines they were made of. -/
@[simp] theorem map_line_mk (fate : Fate) (lines : List α) :
    (lines.map (.mk fate)).map Change.line = lines := by
  simp [Function.comp_def]

/-- The lines of changes without those of a fate are found run by run. -/
theorem without_eq_flatMap (fate : Fate) (changes : List (Change α)) :
    without fate changes = (runs changes).flatMap (without fate) := by
  conv_lhs => rw [← flatten_runs changes]
  generalize runs changes = rs
  induction rs with
  | nil => rfl
  | cons run rs ih => rw [List.flatten_cons, without_append, ih, List.flatMap_cons]

end CommandTree.LineDiff
