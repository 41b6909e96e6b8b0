import CommandTree.Source.Reader

/-!
# Text between tokens

Tokens are separated by blanks, which are all characters up to and including the space, by
comments from two slashes through the end of the line, and by comments from a slash and a star
through the next star and slash. A comment that is not closed runs to the end of the input.
-/

set_option autoImplicit false

namespace CommandTree.Trivia

/-- Blanks are the control characters of ASCII and the space. -/
def isBlank (c : Char) : Bool := c ≤ ' '

/-- A line comment starts with two slashes. -/
def startsLineComment : List Char → Bool
  | '/' :: '/' :: _ => true
  | _ => false

/-- A block comment starts with a slash and a star. -/
def startsBlockComment : List Char → Bool
  | '/' :: '*' :: _ => true
  | _ => false

/-- Whether a comment of either form starts here. -/
def startsComment (cs : List Char) : Bool := startsLineComment cs || startsBlockComment cs

/-- A line comment starts at a slash with a slash behind it. -/
theorem startsLineComment_cons (c : Char) (cs : List Char) :
    startsLineComment (c :: cs) = (c == '/' && cs.head? == some '/') := by
  by_cases hc : c = '/'
  · cases cs with
    | nil => simp [startsLineComment]
    | cons d cs => by_cases hd : d = '/' <;> simp [startsLineComment, hc, hd]
  · simp [startsLineComment, hc]

/-- A block comment starts at a slash with a star behind it. -/
theorem startsBlockComment_cons (c : Char) (cs : List Char) :
    startsBlockComment (c :: cs) = (c == '/' && cs.head? == some '*') := by
  by_cases hc : c = '/'
  · cases cs with
    | nil => simp [startsBlockComment]
    | cons d cs => by_cases hd : d = '*' <;> simp [startsBlockComment, hc, hd]
  · simp [startsBlockComment, hc]

/-- Where a line comment starts there are two slashes. -/
theorem exists_of_startsLineComment {cs : List Char} (h : startsLineComment cs = true) :
    ∃ rest, cs = '/' :: '/' :: rest := by
  unfold startsLineComment at h
  split at h
  · exact ⟨_, rfl⟩
  · contradiction

/-- Where a block comment starts there are a slash and a star. -/
theorem exists_of_startsBlockComment {cs : List Char} (h : startsBlockComment cs = true) :
    ∃ rest, cs = '/' :: '*' :: rest := by
  unfold startsBlockComment at h
  split at h
  · exact ⟨_, rfl⟩
  · contradiction

/-- Where a line comment starts something is pending. -/
theorem ne_nil_of_startsLineComment {cs : List Char} (h : startsLineComment cs = true) :
    cs ≠ [] := by
  rintro rfl
  simp [startsLineComment] at h

/-- Where a block comment starts something is pending. -/
theorem ne_nil_of_startsBlockComment {cs : List Char} (h : startsBlockComment cs = true) :
    cs ≠ [] := by
  rintro rfl
  simp [startsBlockComment] at h

/-- Skips through the next newline. -/
def skipLine (r : Reader) : Except ReadFailure Unit × Reader :=
  match _h : r.next with
  | (.error e, r') => (.error e, r')
  | (.ok none, r') => (.ok (), r')
  | (.ok (some c), r') => if c = '\n' then (.ok (), r') else skipLine r'
termination_by r.size
decreasing_by exact Reader.size_next_lt _h

/-- Skips through the next star that a slash follows. -/
def skipBlock (r : Reader) : Except ReadFailure Unit × Reader :=
  match _h : r.next with
  | (.error e, r') => (.error e, r')
  | (.ok none, r') => (.ok (), r')
  | (.ok (some c), r') =>
    if c = '*' then
      match _h' : r'.peek with
      | (.error e, r'') => (.error e, r'')
      | (.ok next, r'') => if next = some '/' then (.ok (), r''.advance) else skipBlock r''
    else skipBlock r'
termination_by r.size
decreasing_by
  · exact Nat.lt_of_le_of_lt (Reader.size_peek_le_of_eq _h') (Reader.size_next_lt _h)
  · exact Reader.size_next_lt _h

/-- Skipping a line leaves no more to come than before. -/
theorem size_skipLine_le (r : Reader) : (skipLine r).2.size ≤ r.size := by
  fun_induction skipLine r with
  | case1 r e r' h => simpa [h] using Reader.size_next_le r
  | case2 r r' h => simpa [h] using Reader.size_next_le r
  | case3 r r' h => exact Nat.le_of_lt (Reader.size_next_lt h)
  | case4 r c r' h hc ih => exact Nat.le_trans ih (Nat.le_of_lt (Reader.size_next_lt h))

/-- Skipping a block comment leaves no more to come than before. -/
theorem size_skipBlock_le (r : Reader) : (skipBlock r).2.size ≤ r.size := by
  fun_induction skipBlock r with
  | case1 r e r' h => simpa [h] using Reader.size_next_le r
  | case2 r r' h => simpa [h] using Reader.size_next_le r
  | case3 r r' e r'' h' h =>
    exact Nat.le_trans (Reader.size_peek_le_of_eq h') (Nat.le_of_lt (Reader.size_next_lt h))
  | case4 r r' r'' h h' =>
    have hp := Reader.size_peek_le_of_eq h'
    have hn := Reader.size_next_lt h
    exact Nat.le_trans (Reader.size_advance_le r'') (Nat.le_trans hp (Nat.le_of_lt hn))
  | case5 r r' next r'' h' hn h ih =>
    have hp := Reader.size_peek_le_of_eq h'
    exact Nat.le_trans ih (Nat.le_trans hp (Nat.le_of_lt (Reader.size_next_lt h)))
  | case6 r c r' h hc ih => exact Nat.le_trans ih (Nat.le_of_lt (Reader.size_next_lt h))

/-- Two steps past a nonempty line end strictly closer to the end of the source. -/
theorem size_advance_advance_lt {r : Reader} (h : r.pending ≠ []) :
    r.advance.advance.size < r.size :=
  Nat.lt_of_le_of_lt (Reader.size_advance_le r.advance) (Reader.size_advance_lt h)

/-- Skips blanks and comments. On success the reader stands before a character that starts
neither, or at the end of input, and that character is pending. -/
def skip (r : Reader) : Except ReadFailure Unit × Reader :=
  match _h : r.fill with
  | (.error e, r') => (.error e, r')
  | (.ok (), r') =>
    if _hl : startsLineComment r'.pending then
      match _hs : skipLine r'.advance.advance with
      | (.error e, r'') => (.error e, r'')
      | (.ok (), r'') => skip r''
    else if _hb : startsBlockComment r'.pending then
      match _hs : skipBlock r'.advance.advance with
      | (.error e, r'') => (.error e, r'')
      | (.ok (), r'') => skip r''
    else
      match _hp : r'.pending with
      | [] => (.ok (), r')
      | c :: _ => if isBlank c then skip r'.advance else (.ok (), r')
termination_by r.size
decreasing_by
  · have h₁ := size_skipLine_le r'.advance.advance
    have h₂ := size_advance_advance_lt (ne_nil_of_startsLineComment _hl)
    have h₃ := Reader.size_fill_le_of_eq _h
    rw [_hs] at h₁
    exact Nat.lt_of_le_of_lt h₁ (Nat.lt_of_lt_of_le h₂ h₃)
  · have h₁ := size_skipBlock_le r'.advance.advance
    have h₂ := size_advance_advance_lt (ne_nil_of_startsBlockComment _hb)
    have h₃ := Reader.size_fill_le_of_eq _h
    rw [_hs] at h₁
    exact Nat.lt_of_le_of_lt h₁ (Nat.lt_of_lt_of_le h₂ h₃)
  · have h₂ : r'.advance.size < r'.size := Reader.size_advance_lt (by simp [_hp])
    exact Nat.lt_of_lt_of_le h₂ (Reader.size_fill_le_of_eq _h)

/-- Skipping trivia leaves no more to come than before. -/
theorem size_skip_le (r : Reader) : (skip r).2.size ≤ r.size := by
  fun_induction skip r with
  | case1 r e r' h => exact Reader.size_fill_le_of_eq h
  | case2 r r' h hl e r'' hs =>
    have h₁ := size_skipLine_le r'.advance.advance
    rw [hs] at h₁
    exact Nat.le_trans h₁ (Nat.le_trans
      (Nat.le_of_lt (size_advance_advance_lt (ne_nil_of_startsLineComment hl)))
      (Reader.size_fill_le_of_eq h))
  | case3 r r' h hl r'' hs ih =>
    have h₁ := size_skipLine_le r'.advance.advance
    rw [hs] at h₁
    exact Nat.le_trans ih (Nat.le_trans h₁ (Nat.le_trans
      (Nat.le_of_lt (size_advance_advance_lt (ne_nil_of_startsLineComment hl)))
      (Reader.size_fill_le_of_eq h)))
  | case4 r r' h hl hb e r'' hs =>
    have h₁ := size_skipBlock_le r'.advance.advance
    rw [hs] at h₁
    exact Nat.le_trans h₁ (Nat.le_trans
      (Nat.le_of_lt (size_advance_advance_lt (ne_nil_of_startsBlockComment hb)))
      (Reader.size_fill_le_of_eq h))
  | case5 r r' h hl hb r'' hs ih =>
    have h₁ := size_skipBlock_le r'.advance.advance
    rw [hs] at h₁
    exact Nat.le_trans ih (Nat.le_trans h₁ (Nat.le_trans
      (Nat.le_of_lt (size_advance_advance_lt (ne_nil_of_startsBlockComment hb)))
      (Reader.size_fill_le_of_eq h)))
  | case6 r r' h hl hb hp => exact Reader.size_fill_le_of_eq h
  | case7 r r' h hl hb c rest hp hc ih =>
    exact Nat.le_trans ih (Nat.le_trans (Reader.size_advance_le r') (Reader.size_fill_le_of_eq h))
  | case8 r r' h hl hb c rest hp hc => exact Reader.size_fill_le_of_eq h

/-- Where skipping stops no comment starts. -/
theorem startsComment_of_skip {r q : Reader} (h : skip r = (.ok (), q)) :
    startsComment q.pending = false := by
  fun_induction skip r with
  | case1 r e r' hfill => simp at h
  | case2 r r' hfill hl e r'' hs => simp at h
  | case3 r r' hfill hl r'' hs ih => exact ih h
  | case4 r r' hfill hl hb e r'' hs => simp at h
  | case5 r r' hfill hl hb r'' hs ih => exact ih h
  | case6 r r' hfill hl hb hp =>
    obtain rfl := (Prod.mk.inj h).2
    simp [startsComment, hl, hb]
  | case7 r r' hfill hl hb c rest hp hc ih => exact ih h
  | case8 r r' hfill hl hb c rest hp hc =>
    obtain rfl := (Prod.mk.inj h).2
    simp [startsComment, hl, hb]

end CommandTree.Trivia
