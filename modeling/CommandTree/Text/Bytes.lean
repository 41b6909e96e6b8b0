/-!
# Byte counts of texts

Offsets into a text count bytes of its UTF-8 form. An offset between two characters cuts the text
in two; one inside a character, or past the end, cuts it nowhere.
-/

set_option autoImplicit false

namespace CommandTree.Bytes

/-- The number of bytes of a text. -/
def count : List Char → Nat
  | [] => 0
  | c :: cs => c.utf8Size + count cs

/-- The parts of a text before and behind an offset. -/
def cut? : List Char → Nat → Option (List Char × List Char)
  | cs, 0 => some ([], cs)
  | [], _ + 1 => none
  | c :: cs, offset =>
    if c.utf8Size ≤ offset then
      (cut? cs (offset - c.utf8Size)).map fun parts => (c :: parts.1, parts.2)
    else none

/-- The empty text has no bytes. -/
@[simp] theorem count_nil : count [] = 0 := rfl

/-- A text has as many bytes as its first character and the others together. -/
@[simp] theorem count_cons (c : Char) (cs : List Char) :
    count (c :: cs) = c.utf8Size + count cs := rfl

/-- The bytes of two texts add up. -/
@[simp] theorem count_append (cs ds : List Char) : count (cs ++ ds) = count cs + count ds := by
  induction cs with
  | nil => simp
  | cons c cs ih => simp only [List.cons_append, count_cons, ih, Nat.add_assoc]

/-- Every character takes up bytes. -/
theorem count_eq_zero {cs : List Char} : count cs = 0 ↔ cs = [] := by
  cases cs with
  | nil => simp
  | cons c cs =>
    have := c.utf8Size_pos
    simp only [count_cons, reduceCtorEq, iff_false]
    omega

/-- The two sides of a cut make up the text, and the first side has as many bytes as were asked
for. -/
theorem cut?_eq_some {cs before behind : List Char} {offset : Nat}
    (h : cut? cs offset = some (before, behind)) :
    cs = before ++ behind ∧ count before = offset := by
  induction cs generalizing offset before with
  | nil =>
    cases offset <;> simp [cut?] at h
    obtain ⟨rfl, rfl⟩ := h
    simp
  | cons c cs ih =>
    cases offset with
    | zero =>
      simp only [cut?, Option.some.injEq, Prod.mk.injEq] at h
      obtain ⟨rfl, rfl⟩ := h
      simp
    | succ n =>
      simp only [cut?] at h
      split at h
      · rename_i hle
        simp only [Option.map_eq_some_iff, Prod.mk.injEq, Prod.exists] at h
        obtain ⟨b, r, hcut, rfl, rfl⟩ := h
        obtain ⟨rfl, hcount⟩ := ih hcut
        simp only [List.cons_append, count_cons, true_and]
        omega
      · simp at h

/-- The offset behind any first part of a text cuts the text there. -/
theorem cut?_count (before behind : List Char) :
    cut? (before ++ behind) (count before) = some (before, behind) := by
  induction before with
  | nil => simp [cut?]
  | cons c cs ih =>
    obtain ⟨n, hn⟩ : ∃ n, count (c :: cs) = n + 1 := by
      refine ⟨count (c :: cs) - 1, ?_⟩
      have := c.utf8Size_pos
      rw [count_cons]
      omega
    have hle : c.utf8Size ≤ n + 1 := by
      rw [← hn, count_cons]
      omega
    have hrest : n + 1 - c.utf8Size = count cs := by
      rw [← hn, count_cons]
      omega
    rw [hn, List.cons_append, cut?, if_pos hle, hrest, ih]
    · rfl
    · exact Nat.succ_ne_zero n

end CommandTree.Bytes
