import CommandTree.LineDiff
import CommandTree.Tree.Printer
import Mathlib.Data.List.TakeWhile

/-!
# The lines of canonical texts

Every line of a canonical text ends in a semicolon or a brace. No line is empty, therefore, and none
ends in a carriage return, and the only blank that trimming takes off such a text is the newline at
its end. Names and words cannot add lines, because a newline is written as an escape.
-/

set_option autoImplicit false

namespace CommandTree

/-! ## Parts -/

namespace Split

variable {separator : Char}

/-- The parts of a text do not hold the separator at which the text is split. -/
theorem notMem_of_mem_parts {cs part : List Char} (h : part ∈ parts separator cs) :
    separator ∉ part := by
  induction cs generalizing part with
  | nil => simp_all
  | cons c cs ih =>
    obtain ⟨first, others, hparts⟩ := List.exists_cons_of_ne_nil (parts_ne_nil separator cs)
    rw [parts_cons, hparts, step] at h
    rw [hparts] at ih
    split at h
    · rcases List.mem_cons.mp h with rfl | hmem
      · exact List.not_mem_nil
      · exact ih hmem
    · rename_i hne
      rcases List.mem_cons.mp h with rfl | hmem
      · have hfirst := ih List.mem_cons_self
        simp [hfirst, Ne.symm hne]
      · exact ih (List.mem_cons_of_mem _ hmem)

/-- Behind a part without the separator, the separator starts the next part. -/
theorem parts_append_cons {part : List Char} (h : separator ∉ part) (rest : List Char) :
    parts separator (part ++ separator :: rest) = part :: parts separator rest := by
  rw [parts_append, parts_of_notMem h]
  rfl

/-- Parts without the separator are those of the text that they make up. -/
theorem parts_join {lines : List (List Char)} (hne : lines ≠ [])
    (h : ∀ line ∈ lines, separator ∉ line) : parts separator (join separator lines) = lines := by
  induction lines with
  | nil => contradiction
  | cons line lines ih =>
    obtain ⟨hline, hlines⟩ := List.forall_mem_cons.mp h
    cases lines with
    | nil => exact parts_of_notMem hline
    | cons next rest =>
      rw [join, parts_append_cons hline, ih (List.cons_ne_nil _ _) hlines]

/-- A text of lines that all end in a newline. -/
theorem flatMap_eq_join {lines : List (List Char)} (hne : lines ≠ []) :
    (lines.flatMap fun line => line ++ [separator]) = join separator lines ++ [separator] := by
  induction lines with
  | nil => contradiction
  | cons line lines ih =>
    cases lines with
    | nil => simp [join]
    | cons next rest =>
      rw [List.flatMap_cons, ih (List.cons_ne_nil _ _), join]
      simp

end Split

namespace Blank

variable {cs : List Char} {c : Char}

/-- A blank at the end is trimmed. -/
theorem trimEnd_append_of_isBlank (h : isBlank c = true) : trimEnd (cs ++ [c]) = trimEnd cs := by
  simp [trimEnd, h]

/-- A character that is no blank ends the trimming, so nothing is trimmed behind it. -/
theorem trimEnd_append_of_not_isBlank (h : isBlank c = false) :
    trimEnd (cs ++ [c]) = cs ++ [c] := by
  simp [trimEnd, h]

/-- A text with a character that is no blank is not trimmed away. -/
theorem trimEnd_ne_nil (hmem : c ∈ cs) (h : isBlank c = false) : trimEnd cs ≠ [] := by
  intro hnil
  have hdrop : cs.reverse.dropWhile isBlank = [] := List.reverse_eq_nil_iff.mp hnil
  have hall := List.dropWhile_eq_nil_iff.mp hdrop c (List.mem_reverse.mpr hmem)
  rw [h] at hall
  contradiction

end Blank

/-! ## Written lines -/

namespace Quoted

/-- Escaping a character gives no newline, since newlines are escaped themselves. -/
theorem newline_notMem_escape (c : Char) : '\n' ∉ escape c := by
  unfold escape
  repeat' split
  all_goals simp_all [eq_comm]

/-- A written word has no newline in it. -/
theorem newline_notMem_write (word : String) : '\n' ∉ (write word).toList := by
  rw [write, String.toList_ofList, writeChars]
  split
  · rename_i hbare
    have hchars : word.toList.all Word.isWordChar = true := by
      simp only [isBare, Bool.and_eq_true] at hbare
      exact hbare.1.2
    intro hmem
    have hword := List.all_eq_true.mp hchars '\n' hmem
    contradiction
  · simp [newline_notMem_escape]

end Quoted

namespace Tree

/-- A line of a canonical text ends in a semicolon or a brace. -/
structure IsWrittenLine (line : List Char) : Prop where
  /-- It is a single line. -/
  newline_notMem : '\n' ∉ line
  /-- Its last character is one of those that end the lines of canonical texts. -/
  ends : ∃ front c, line = front ++ [c] ∧ (c = ';' ∨ c = '{' ∨ c = '}')

/-- The indent of a line is no newline. -/
theorem newline_notMem_indent (level : Nat) : '\n' ∉ (indent level).toList := by
  rw [indent, String.toList_ofList, List.mem_replicate]
  exact fun h => absurd h.2 (by decide)

/-- The head of a node stands on one line, whatever its name and its payload hold. -/
theorem newline_notMem_headText (name : String) (type : Option ArgType) :
    '\n' ∉ (headText name type).toList := by
  unfold headText
  generalize headWords name type = words
  induction words with
  | nil => simp
  | cons word words ih =>
    cases words with
    | nil => simpa using Quoted.newline_notMem_write word
    | cons next rest =>
      rw [List.map_cons, List.map_cons, String.intercalate_cons_cons]
      simpa [Quoted.newline_notMem_write] using ih

mutual

/-- A tree adds whole lines to the text before it, at least one. -/
theorem exists_lines_write (t : Tree) (level : Nat) (out : String) :
    ∃ lines : List (List Char), lines ≠ [] ∧ (∀ line ∈ lines, IsWrittenLine line) ∧
      (write level out t).toList = out.toList ++ lines.flatMap fun line => line ++ ['\n'] := by
  obtain ⟨name, type, children⟩ := t
  have hhead := newline_notMem_headText name type
  have hindent := newline_notMem_indent level
  cases children with
  | nil =>
    refine ⟨[(indent level).toList ++ (headText name type).toList ++ [';']], by simp, ?_, ?_⟩
    · refine List.forall_mem_singleton.mpr ⟨?_, _, ';', rfl, Or.inl rfl⟩
      simp [hhead, hindent]
    · simp [write]
  | cons child children =>
    obtain ⟨inner, hinner, heq⟩ := exists_lines_writeAll (child :: children) (level + 1)
      (out ++ indent level ++ headText name type ++ " \x7b\n")
    refine ⟨((indent level).toList ++ (headText name type).toList ++ [' '] ++ ['{']) ::
      (inner ++ [(indent level).toList ++ ['}']]), by simp, ?_, ?_⟩
    · intro line hline
      rcases List.mem_cons.mp hline with rfl | hline
      · refine ⟨?_, _, '{', rfl, Or.inr (Or.inl rfl)⟩
        simp [hhead, hindent]
      rcases List.mem_append.mp hline with hline | hline
      · exact hinner line hline
      · obtain rfl := List.mem_singleton.mp hline
        refine ⟨?_, _, '}', rfl, Or.inr (Or.inr rfl)⟩
        simp [hindent]
    · simp [write, heq]

/-- The canonical form of siblings adds whole lines, each of which ends in a semicolon or a
brace. -/
theorem exists_lines_writeAll (ts : List Tree) (level : Nat) (out : String) :
    ∃ lines : List (List Char), (∀ line ∈ lines, IsWrittenLine line) ∧
      (writeAll level out ts).toList = out.toList ++ lines.flatMap fun line => line ++ ['\n'] := by
  cases ts with
  | nil => exact ⟨[], by simp, by simp [writeAll]⟩
  | cons t ts =>
    obtain ⟨first, -, hfirst, heqFirst⟩ := exists_lines_write t level out
    obtain ⟨others, hothers, heqOthers⟩ := exists_lines_writeAll ts level (write level out t)
    refine ⟨first ++ others, ?_, ?_⟩
    · exact fun line hline => (List.mem_append.mp hline).elim (hfirst line) (hothers line)
    · rw [writeAll, heqOthers, heqFirst, List.flatMap_append, List.append_assoc]

end

/-- A text of written lines does not end in a blank. -/
theorem exists_join_eq {lines : List (List Char)} (hne : lines ≠ [])
    (h : ∀ line ∈ lines, IsWrittenLine line) :
    ∃ front c, Split.join '\n' lines = front ++ [c] ∧ Blank.isBlank c = false := by
  induction lines with
  | nil => contradiction
  | cons line lines ih =>
    obtain ⟨hline, hlines⟩ := List.forall_mem_cons.mp h
    cases lines with
    | nil =>
      obtain ⟨-, front, c, rfl, hc⟩ := hline
      refine ⟨front, c, rfl, ?_⟩
      rcases hc with rfl | rfl | rfl <;> decide
    | cons next rest =>
      obtain ⟨front, c, heq, hc⟩ := ih (List.cons_ne_nil _ _) hlines
      exact ⟨line ++ '\n' :: front, c, by simp [Split.join, heq], hc⟩

end Tree

namespace LineDiff

/-- The lines of a text without the blanks at its end. -/
def trimmedLines (text : String) : List (List Char) :=
  Split.parts '\n' (Blank.trimEnd text.toList)

/-- The lines of a canonical text are those that were written. -/
theorem isWrittenLine_of_mem (t : Tree) :
    ∀ line ∈ trimmedLines t.source, Tree.IsWrittenLine line := by
  obtain ⟨lines, hne, hlines, heq⟩ := t.exists_lines_write 0 ""
  obtain ⟨front, c, hjoin, hc⟩ := Tree.exists_join_eq hne hlines
  have htrimmed : trimmedLines t.source = lines := by
    have htext : t.source.toList = Split.join '\n' lines ++ ['\n'] := by
      rw [Tree.source, heq, ← Split.flatMap_eq_join hne]
      simp
    rw [trimmedLines, htext, Blank.trimEnd_append_of_isBlank (by decide), hjoin,
      Blank.trimEnd_append_of_not_isBlank hc, ← hjoin]
    exact Split.parts_join hne fun line hline => (hlines line hline).newline_notMem
  rw [htrimmed]
  exact hlines

end LineDiff

end CommandTree
