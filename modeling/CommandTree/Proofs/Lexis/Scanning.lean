import CommandTree.Proofs.Lexis.Lexeme
import CommandTree.Proofs.Lexis.Standing

/-!
# Readers follow the lexical grammar

Each reader of a part of the text, started in front of a stretch that the lexical grammar describes,
takes that stretch and stops behind it. The proofs are inductions on the stretch.
-/

set_option autoImplicit false

namespace CommandTree

variable {r : Reader} {before behind : List Char}

/-! ## Trivia -/

namespace Trivia

/-- At the end of input the line is skipped. -/
theorem skipLine_of_none {r' : Reader} (h : r.next = (.ok none, r')) :
    skipLine r = (.ok (), r') := by
  rw [skipLine]
  split <;> simp_all

/-- A newline ends the line, and any other character is passed. -/
theorem skipLine_of_some {r' : Reader} {c : Char} (h : r.next = (.ok (some c), r')) :
    skipLine r = if c = '\n' then (.ok (), r') else skipLine r' := by
  rw [skipLine]
  split <;> simp_all

/-- A line with a newline is skipped through it. -/
theorem skipLine_closed {body : List Char} (hbody : '\n' ∉ body)
    (h : r.Stands before (body ++ '\n' :: behind)) :
    ∃ r', skipLine r = (.ok (), r') ∧ r'.Stands (before ++ body ++ ['\n']) behind := by
  induction body generalizing r before with
  | nil =>
    obtain ⟨r', hnext, hr'⟩ := h.next_cons
    refine ⟨r', ?_, by simpa using hr'⟩
    rw [skipLine_of_some hnext, if_pos rfl]
  | cons c body ih =>
    obtain ⟨hc, hbody⟩ := not_or.mp (mt List.mem_cons.mpr hbody)
    obtain ⟨r', hnext, hr'⟩ := h.next_cons
    obtain ⟨r'', hskip, hr''⟩ := ih hbody hr'
    refine ⟨r'', ?_, by simpa using hr''⟩
    rw [skipLine_of_some hnext, if_neg (Ne.symm hc), hskip]

/-- A last line without a newline is skipped through its end. -/
theorem skipLine_open {body : List Char} (hbody : '\n' ∉ body) (h : r.Stands before body) :
    ∃ r', skipLine r = (.ok (), r') ∧ r'.Stands (before ++ body) [] := by
  induction body generalizing r before with
  | nil =>
    obtain ⟨r', hnext, hr'⟩ := h.next_nil
    exact ⟨r', skipLine_of_none hnext, by simpa using hr'⟩
  | cons c body ih =>
    obtain ⟨hc, hbody⟩ := not_or.mp (mt List.mem_cons.mpr hbody)
    obtain ⟨r', hnext, hr'⟩ := h.next_cons
    obtain ⟨r'', hskip, hr''⟩ := ih hbody hr'
    refine ⟨r'', ?_, by simpa using hr''⟩
    rw [skipLine_of_some hnext, if_neg (Ne.symm hc), hskip]

/-- At the end of input an open block comment is skipped. -/
theorem skipBlock_of_none {r' : Reader} (h : r.next = (.ok none, r')) :
    skipBlock r = (.ok (), r') := by
  rw [skipBlock]
  split <;> simp_all

/-- A character other than a star is passed. -/
theorem skipBlock_of_other {r' : Reader} {c : Char} (h : r.next = (.ok (some c), r'))
    (hc : c ≠ '*') : skipBlock r = skipBlock r' := by
  rw [skipBlock]
  split <;> simp_all

/-- A star ends the block comment if a slash follows, which is passed as well. -/
theorem skipBlock_of_star {r' r'' : Reader} {next : Option Char}
    (h : r.next = (.ok (some '*'), r')) (hpeek : r'.peek = (.ok next, r'')) :
    skipBlock r = if next = some '/' then (.ok (), r''.advance) else skipBlock r'' := by
  rw [skipBlock]
  split
  · simp_all
  · simp_all
  · rename_i c q hq
    obtain ⟨rfl, rfl⟩ : '*' = c ∧ r' = q := by simpa [h] using hq
    rw [if_pos rfl]
    split <;> simp_all

/-- In front of the rest of a block comment, a character is taken and either nothing is decided or
the comment was over. -/
theorem skipBlock_step {c : Char} {cs : List Char} (h : r.Stands before (c :: cs))
    (hc : ¬ (c = '*' ∧ cs.head? = some '/')) :
    ∃ r', skipBlock r = skipBlock r' ∧ r'.Stands (before ++ [c]) cs := by
  obtain ⟨r', hnext, hr'⟩ := h.next_cons
  by_cases hstar : c = '*'
  · subst hstar
    obtain ⟨r'', hpeek, hr''⟩ := hr'.peek
    refine ⟨r'', ?_, hr''.toStands⟩
    rw [skipBlock_of_star hnext hpeek, if_neg fun hhead => hc ⟨rfl, hhead⟩]
  · exact ⟨r', skipBlock_of_other hnext hstar, hr'⟩

/-- No star and slash start at the first character of a text without them. -/
theorem head?_ne_slash {c : Char} {body : List Char} (rest : List Char)
    (hbody : ¬ ['*', '/'] <:+: c :: body) (hrest : rest.head? ≠ some '/') :
    ¬ (c = '*' ∧ (body ++ rest).head? = some '/') := by
  rintro ⟨rfl, hhead⟩
  cases body with
  | nil => exact hrest (by simpa using hhead)
  | cons d body =>
    obtain rfl : d = '/' := by simpa using hhead
    exact hbody ⟨[], body, rfl⟩

/-- A block comment that is closed is skipped through the star and the slash. -/
theorem skipBlock_closed {body : List Char} (hbody : ¬ ['*', '/'] <:+: body)
    (h : r.Stands before (body ++ '*' :: '/' :: behind)) :
    ∃ r', skipBlock r = (.ok (), r') ∧ r'.Stands (before ++ body ++ ['*', '/']) behind := by
  induction body generalizing r before with
  | nil =>
    obtain ⟨r', hnext, hr'⟩ := h.next_cons
    obtain ⟨r'', hpeek, hr''⟩ := hr'.peek
    refine ⟨r''.advance, ?_, by simpa using hr''.advance⟩
    rw [skipBlock_of_star hnext hpeek, if_pos (by rfl)]
  | cons c body ih =>
    obtain ⟨r', hstep, hr'⟩ := skipBlock_step h (head?_ne_slash _ hbody (by simp))
    obtain ⟨r'', hskip, hr''⟩ := ih (mt List.infix_cons hbody) hr'
    exact ⟨r'', hstep.trans hskip, by simpa using hr''⟩

/-- A block comment that is not closed is skipped through the end of input. -/
theorem skipBlock_open {body : List Char} (hbody : ¬ ['*', '/'] <:+: body)
    (h : r.Stands before body) :
    ∃ r', skipBlock r = (.ok (), r') ∧ r'.Stands (before ++ body) [] := by
  induction body generalizing r before with
  | nil =>
    obtain ⟨r', hnext, hr'⟩ := h.next_nil
    exact ⟨r', skipBlock_of_none hnext, by simpa using hr'⟩
  | cons c body ih =>
    have hc := head?_ne_slash [] hbody (by simp)
    rw [List.append_nil] at hc
    obtain ⟨r', hstep, hr'⟩ := skipBlock_step h hc
    obtain ⟨r'', hskip, hr''⟩ := ih (mt List.infix_cons hbody) hr'
    exact ⟨r'', hstep.trans hskip, by simpa using hr''⟩

/-- What stands behind trivia is no trivia. -/
structure Ends (behind : List Char) : Prop where
  /-- No comment starts there. -/
  noComment : startsComment behind = false
  /-- No blank stands there. -/
  noBlank : ∀ c, behind.head? = some c → isBlank c = false

/-- Where a line comment starts, trivia goes on behind it. -/
theorem skip_of_line {r' r'' : Reader} (h : r.fill = (.ok (), r'))
    (hl : startsLineComment r'.pending = true)
    (hs : skipLine r'.advance.advance = (.ok (), r'')) : skip r = skip r'' := by
  rw [skip]
  split
  · simp_all
  · rename_i q hq
    obtain rfl : r' = q := by simpa [h] using hq
    rw [dif_pos hl]
    split <;> simp_all

/-- Where a block comment starts, trivia goes on behind it. -/
theorem skip_of_block {r' r'' : Reader} (h : r.fill = (.ok (), r'))
    (hl : startsLineComment r'.pending = false) (hb : startsBlockComment r'.pending = true)
    (hs : skipBlock r'.advance.advance = (.ok (), r'')) : skip r = skip r'' := by
  rw [skip]
  split
  · simp_all
  · rename_i q hq
    obtain rfl : r' = q := by simpa [h] using hq
    rw [dif_neg (by simp [hl]), dif_pos hb]
    split <;> simp_all

/-- A blank is passed, and trivia goes on behind it. -/
theorem skip_of_blank {r' : Reader} {c : Char} (h : r.fill = (.ok (), r'))
    (hc : startsComment r'.pending = false) (hp : r'.pending.head? = some c)
    (hb : isBlank c = true) : skip r = skip r'.advance := by
  rw [startsComment, Bool.or_eq_false_iff] at hc
  rw [skip]
  split
  · simp_all
  · rename_i q hq
    obtain rfl : r' = q := by simpa [h] using hq
    rw [dif_neg (by simp [hc.1]), dif_neg (by simp [hc.2])]
    split <;> simp_all

/-- Where nothing to skip starts, the reader stays. -/
theorem skip_of_ends {r' : Reader} (h : r.fill = (.ok (), r')) (hends : Ends r'.pending) :
    skip r = (.ok (), r') := by
  obtain ⟨hc, hb⟩ := hends
  rw [startsComment, Bool.or_eq_false_iff] at hc
  rw [skip]
  split
  · simp_all
  · rename_i q hq
    obtain rfl : r' = q := by simpa [h] using hq
    rw [dif_neg (by simp [hc.1]), dif_neg (by simp [hc.2])]
    split <;> simp_all

/-- What is pending is no trivia if the text that the reader faces starts with none. -/
theorem Ends.pending {r : Reader} (h : Ends behind) (hr : r.Faces before behind) :
    Ends r.pending := by
  refine ⟨?_, fun c hc => h.noBlank c (hr.head?_pending ▸ hc)⟩
  rw [startsComment, hr.startsLineComment_pending, hr.startsBlockComment_pending]
  exact h.noComment

/-- At the start of a line comment, skipping goes on where the line ends. -/
theorem skip_line {cs after : List Char} (rest : List Char)
    (h : r.Stands before ('/' :: '/' :: cs))
    (hline : ∀ {q : Reader}, q.Stands (before ++ ['/', '/']) cs →
      ∃ q', skipLine q = (.ok (), q') ∧ q'.Stands after rest) :
    ∃ r', skip r = skip r' ∧ r'.Stands after rest := by
  obtain ⟨q, hfill, hq⟩ := h.fill
  have hstart : startsLineComment q.pending = true := by
    rw [hq.startsLineComment_pending]
    rfl
  have hadvance := hq.advance_slash.advance
  rw [List.append_assoc] at hadvance
  obtain ⟨q', hskip, hq'⟩ := hline hadvance
  exact ⟨q', skip_of_line hfill hstart hskip, hq'⟩

/-- At the start of a block comment, skipping goes on where the comment ends. -/
theorem skip_block {cs after : List Char} (rest : List Char)
    (h : r.Stands before ('/' :: '*' :: cs))
    (hblock : ∀ {q : Reader}, q.Stands (before ++ ['/', '*']) cs →
      ∃ q', skipBlock q = (.ok (), q') ∧ q'.Stands after rest) :
    ∃ r', skip r = skip r' ∧ r'.Stands after rest := by
  obtain ⟨q, hfill, hq⟩ := h.fill
  have hline : startsLineComment q.pending = false := by
    rw [hq.startsLineComment_pending]
    rfl
  have hstart : startsBlockComment q.pending = true := by
    rw [hq.startsBlockComment_pending]
    rfl
  have hadvance := hq.advance_slash.advance
  rw [List.append_assoc] at hadvance
  obtain ⟨q', hskip, hq'⟩ := hblock hadvance
  exact ⟨q', skip_of_block hfill hline hstart hskip, hq'⟩

/-- No comment starts at a blank. -/
theorem not_startsComment_of_isBlank {c : Char} (hc : isBlank c = true) (cs : List Char) :
    startsComment (c :: cs) = false := by
  have hslash : c ≠ '/' := by
    rintro rfl
    simp [isBlank] at hc
  rw [startsComment, startsLineComment_cons, startsBlockComment_cons,
    beq_eq_false_iff_ne.mpr hslash]
  rfl

/-- Skipping takes all trivia and stops in front of what is none. -/
theorem skip_of_gap {gap : List Char} (hgap : Lexis.Gap gap behind) (hends : Ends behind)
    (h : r.Stands before (gap ++ behind)) :
    ∃ r', skip r = (.ok (), r') ∧ r'.Faces (before ++ gap) behind := by
  induction hgap generalizing r before with
  | nothing behind =>
    obtain ⟨q, hfill, hq⟩ := h.fill
    exact ⟨q, skip_of_ends hfill (hends.pending hq), by simpa using hq⟩
  | @blank c gap behind hc _ ih =>
    obtain ⟨q, hfill, hq⟩ := h.fill
    have hcomment : startsComment q.pending = false := by
      rw [startsComment, hq.startsLineComment_pending, hq.startsBlockComment_pending]
      exact not_startsComment_of_isBlank hc _
    obtain ⟨r', hskip, hr'⟩ := ih hends hq.advance
    refine ⟨r', ?_, by simpa using hr'⟩
    rw [skip_of_blank hfill hcomment hq.head?_pending hc, hskip]
  | @lineComment body gap behind hbody _ ih =>
    obtain ⟨q, hskip, hq⟩ := skip_line (gap ++ behind) h fun hq =>
      skipLine_closed hbody (by simpa using hq)
    obtain ⟨r', hskip', hr'⟩ := ih hends hq
    exact ⟨r', hskip.trans hskip', by simpa using hr'⟩
  | @openLineComment body hbody =>
    obtain ⟨q, hskip, hq⟩ := skip_line [] h fun hq => skipLine_open hbody (by simpa using hq)
    obtain ⟨r', hfill, hr'⟩ := hq.fill
    refine ⟨r', ?_, by simpa using hr'⟩
    rw [hskip, skip_of_ends hfill (hends.pending hr')]
  | @blockComment body gap behind hbody _ ih =>
    obtain ⟨q, hskip, hq⟩ := skip_block (gap ++ behind) h fun hq =>
      skipBlock_closed hbody (by simpa using hq)
    obtain ⟨r', hskip', hr'⟩ := ih hends hq
    exact ⟨r', hskip.trans hskip', by simpa using hr'⟩
  | @openBlockComment body hbody =>
    obtain ⟨q, hskip, hq⟩ := skip_block [] h fun hq => skipBlock_open hbody (by simpa using hq)
    obtain ⟨r', hfill, hr'⟩ := hq.fill
    refine ⟨r', ?_, by simpa using hr'⟩
    rw [hskip, skip_of_ends hfill (hends.pending hr')]

end Trivia

/-! ## Bare words -/

namespace Word

/-- A character that does not carry the word on ends it and stays. -/
theorem readRest_of_stops {r' : Reader} (read : List Char) (h : r.fill = (.ok (), r'))
    (hc : continues r'.pending = false) : readRest read r = (.ok read.reverse, r') := by
  rw [readRest]
  split
  · simp_all
  · rename_i q hq
    obtain rfl : r' = q := by simpa [h] using hq
    split <;> simp_all

/-- All characters that carry the word on are read, and the word ends behind them. -/
theorem readRest_of_carries {slice : List Char} (read : List Char)
    (hcarries : ∀ tail, tail ≠ [] → tail <:+ slice → continues (tail ++ behind) = true)
    (hstops : continues behind = false) (h : r.Stands before (slice ++ behind)) :
    ∃ r', readRest read r = (.ok (read.reverse ++ slice), r') ∧
      r'.Stands (before ++ slice) behind := by
  induction slice generalizing r before read with
  | nil =>
    obtain ⟨q, hfill, hq⟩ := h.fill
    refine ⟨q, ?_, by simpa using hq.toStands⟩
    rw [readRest_of_stops read hfill (hq.continues_pending.trans hstops), List.append_nil]
  | cons c slice ih =>
    obtain ⟨q, hfill, hq⟩ := h.fill
    have hc : continues q.pending = true :=
      hq.continues_pending.trans (hcarries _ (by simp) (List.suffix_refl _))
    obtain ⟨r', hread, hr'⟩ := ih (c :: read)
      (fun tail hne htail => hcarries tail hne (htail.trans (List.suffix_cons c slice))) hq.advance
    refine ⟨r', ?_, by simpa using hr'⟩
    rw [readRest_of_continues read hfill hq.head?_pending hc, hread]
    simp

/-- A bare word is read as it stands, each of its characters passing the same test. -/
theorem read_of_bareWord {slice : List Char} (hword : Lexis.BareWord slice behind)
    (h : r.Stands before (slice ++ behind)) :
    ∃ r', read r = (.ok slice, r') ∧ r'.Stands (before ++ slice) behind := by
  refine readRest_of_carries [] (fun tail hne htail => ?_) hword.maximal h
  cases tail with
  | nil => exact absurd rfl hne
  | cons c tail =>
    have hc := hword.wordChars c (htail.subset List.mem_cons_self)
    have hcomment := hword.noComment _ hne htail
    rw [List.cons_append] at hcomment ⊢
    simp [continues, hc, hcomment]

end Word

/-! ## Quoted words -/

namespace Quoted

open Lexis

/-- The octal digits of an escape are read as the number that they stand for. -/
theorem readOctal_of_digits {count : Nat} {digits : List Char} (value : Nat)
    (hdigits : ∀ c ∈ digits, (octalDigit? c).isSome = true) (hle : digits.length ≤ count)
    (hmax : digits.length = count ∨ behind.head?.bind octalDigit? = none)
    (h : r.Stands before (digits ++ behind)) :
    ∃ r', readOctal count value r = (.ok (octalValue value digits), r') ∧
      r'.Stands (before ++ digits) behind := by
  induction count generalizing r before digits value with
  | zero =>
    obtain rfl : digits = [] := List.eq_nil_of_length_eq_zero (Nat.le_zero.mp hle)
    exact ⟨r, rfl, by simpa using h⟩
  | succ count ih =>
    obtain ⟨q, hfill, hq⟩ := h.fill
    cases digits with
    | nil =>
      have hnone : q.pending.head?.bind octalDigit? = none := by
        rw [hq.head?_pending]
        simpa using hmax
      refine ⟨q, ?_, by simpa using hq.toStands⟩
      simp only [readOctal, hfill, hnone]
      rfl
    | cons c digits =>
      obtain ⟨n, hn⟩ := Option.isSome_iff_exists.mp (hdigits c List.mem_cons_self)
      have hsome : q.pending.head?.bind octalDigit? = some n := by
        rw [hq.head?_pending]
        exact hn
      obtain ⟨r', hread, hr'⟩ := ih (value * 8 + n)
        (fun d hd => hdigits d (List.mem_cons_of_mem _ hd)) (Nat.le_of_succ_le_succ hle)
        (hmax.imp_left Nat.succ.inj) hq.advance
      refine ⟨r', ?_, by simpa using hr'⟩
      simp only [readOctal, hfill, hsome, hread]
      simp [octalValue, hn]

/-- An escape of a character that is no octal digit is that character, or the control character it
is the letter of. -/
theorem readEscape_of_other {c : Char} {cs : List Char} (hc : octalDigit? c = none)
    (h : r.Stands before (c :: cs)) :
    ∃ r', readEscape r = (.ok (some ((controlOfLetter c).getD c)), r') ∧
      r'.Stands (before ++ [c]) cs := by
  obtain ⟨r', hnext, hr'⟩ := h.next_cons
  refine ⟨r', ?_, hr'⟩
  simp only [readEscape, hnext, hc]

/-- An octal escape is the character with the number that its digits stand for. -/
theorem readEscape_of_octal {c : Char} {first : Nat} {others : List Char}
    (hc : octalDigit? c = some first) (hothers : OctalDigits first others behind)
    (h : r.Stands before (c :: (others ++ behind))) :
    ∃ r', readEscape r = (.ok (some (Char.ofNat (octalValue first others))), r') ∧
      r'.Stands (before ++ c :: others) behind := by
  obtain ⟨q, hnext, hq⟩ := h.next_cons
  obtain ⟨r', hread, hr'⟩ := readOctal_of_digits first hothers.digits hothers.length_le
    hothers.maximal hq
  refine ⟨r', ?_, by simpa using hr'⟩
  simp only [readEscape, hnext, hc, hread]

/-- At the end of input the quoted word ends. -/
theorem readRest_of_nil {r' : Reader} (read : List Char) (h : r.fill = (.ok (), r'))
    (hp : r'.pending = []) : readRest read r = (.ok read.reverse, r') := by
  rw [readRest]
  split
  · simp_all
  · rename_i q hq
    obtain rfl : r' = q := by simpa [h] using hq
    split <;> simp_all

/-- A quote ends the quoted word and is passed. -/
theorem readRest_of_quote {r' : Reader} (read : List Char) (h : r.fill = (.ok (), r'))
    (hp : r'.pending.head? = some '"') : readRest read r = (.ok read.reverse, r'.advance) := by
  rw [readRest]
  split
  · simp_all
  · rename_i q hq
    obtain rfl : r' = q := by simpa [h] using hq
    split <;> simp_all

/-- A newline or a carriage return ends the quoted word and stays. -/
theorem readRest_of_lineEnd {r' : Reader} {c : Char} (read : List Char)
    (h : r.fill = (.ok (), r')) (hp : r'.pending.head? = some c) (hc : isLineEnd c = true) :
    readRest read r = (.ok read.reverse, r') := by
  have hquote : c ≠ '"' := by
    rintro rfl
    simp [isLineEnd] at hc
  rw [readRest]
  split
  · simp_all
  · rename_i q hq
    obtain rfl : r' = q := by simpa [h] using hq
    split <;> simp_all

/-- Any other character but a backslash belongs to the quoted word. -/
theorem readRest_of_plain {r' : Reader} {c : Char} (read : List Char)
    (h : r.fill = (.ok (), r')) (hp : r'.pending.head? = some c) (hquote : c ≠ '"')
    (hslash : c ≠ '\\') (hc : isLineEnd c = false) :
    readRest read r = readRest (c :: read) r'.advance := by
  rw [readRest]
  split
  · simp_all
  · rename_i q hq
    obtain rfl : r' = q := by simpa [h] using hq
    split <;> simp_all

/-- What is behind a backslash belongs to the quoted word as it is decoded. -/
theorem readRest_of_escape {r' r'' : Reader} {decoded : Option Char} (read : List Char)
    (h : r.fill = (.ok (), r')) (hp : r'.pending.head? = some '\\')
    (he : readEscape r'.advance = (.ok decoded, r'')) :
    readRest read r = readRest (decoded.toList ++ read) r'' := by
  rw [readRest]
  split
  · simp_all
  · rename_i q hq
    obtain rfl : r' = q := by simpa [h] using hq
    split
    · simp_all
    · rename_i c _ hc
      obtain rfl : c = '\\' := by simpa [hc] using hp
      rw [if_neg (by decide), if_neg (by decide), if_pos rfl]
      cases decoded <;> split <;> simp_all

/-- The body of a quoted word is read as the text that it spells. -/
theorem readRest_of_spells {body text : List Char} (read : List Char) (hbody : Spells body text)
    (h : r.Stands before (body ++ behind))
    (hrest : behind.head?.bind octalDigit? = none) :
    ∃ r', readRest read r = readRest (text.reverse ++ read) r' ∧
      r'.Stands (before ++ body) behind := by
  induction hbody generalizing r before read with
  | nil => exact ⟨r, rfl, by simpa using h⟩
  | @plain c body text hquote hslash hc _ ih =>
    obtain ⟨q, hfill, hq⟩ := h.fill
    obtain ⟨r', hread, hr'⟩ := ih (c :: read) hq.advance
    refine ⟨r', ?_, by simpa using hr'⟩
    rw [readRest_of_plain read hfill hq.head?_pending hquote hslash hc, hread]
    simp
  | @escape c body text hc _ ih =>
    obtain ⟨q, hfill, hq⟩ := h.fill
    obtain ⟨q', hescape, hq'⟩ := readEscape_of_other hc hq.advance
    obtain ⟨r', hread, hr'⟩ := ih ((controlOfLetter c).getD c :: read) hq'
    refine ⟨r', ?_, by simpa using hr'⟩
    rw [readRest_of_escape read hfill hq.head?_pending hescape]
    simpa using hread
  | @octal c first others body text hc hothers _ ih =>
    obtain ⟨q, hfill, hq⟩ := h.fill
    have hothers' : OctalDigits first others (body ++ behind) := by
      refine ⟨hothers.digits, hothers.length_le, hothers.maximal.imp_right fun hnone => ?_⟩
      cases body with
      | nil => exact hrest
      | cons d body => exact hnone
    obtain ⟨q', hescape, hq'⟩ := readEscape_of_octal hc hothers' (by simpa using hq.advance)
    obtain ⟨r', hread, hr'⟩ := ih (Char.ofNat (octalValue first others) :: read) hq'
    refine ⟨r', ?_, by simpa using hr'⟩
    rw [readRest_of_escape read hfill hq.head?_pending hescape]
    simpa using hread

/-- What closes a quoted word does not go on an octal escape in front of it. -/
theorem head?_of_closes {closing : List Char} (h : Closes closing behind) :
    (closing ++ behind).head?.bind octalDigit? = none := by
  cases h with
  | quote => rfl
  | lineEnd _ hc =>
    simp only [isLineEnd, Bool.or_eq_true, beq_iff_eq] at hc
    rcases hc with rfl | rfl <;> rfl
  | atEnd => rfl
  | backslashAtEnd => rfl

/-- Whatever closes a quoted word ends it, and is passed if it is a quote. -/
theorem readRest_of_closes {closing : List Char} (read : List Char)
    (hclosing : Closes closing behind) (h : r.Stands before (closing ++ behind)) :
    ∃ r', readRest read r = (.ok read.reverse, r') ∧ r'.Stands (before ++ closing) behind := by
  obtain ⟨q, hfill, hq⟩ := h.fill
  cases hclosing with
  | quote => exact ⟨q.advance, readRest_of_quote read hfill hq.head?_pending, hq.advance⟩
  | lineEnd _ hc =>
    exact ⟨q, readRest_of_lineEnd read hfill hq.head?_pending hc, by simpa using hq.toStands⟩
  | atEnd => exact ⟨q, readRest_of_nil read hfill hq.pending_nil, by simpa using hq.toStands⟩
  | backslashAtEnd =>
    obtain ⟨q', hnext, hq'⟩ := hq.advance.next_nil
    obtain ⟨r', hfill', hr'⟩ := hq'.fill
    have hescape : readEscape q.advance = (.ok none, q') := by simp only [readEscape, hnext]
    refine ⟨r', ?_, hr'.toStands⟩
    rw [readRest_of_escape read hfill hq.head?_pending hescape]
    exact readRest_of_nil read hfill' hr'.pending_nil

/-- A quoted word is read to its end, and its text is what its body spells. -/
theorem read_of_spells {body text closing : List Char} (hbody : Spells body text)
    (hclosing : Closes closing behind)
    (h : r.Faces before ('"' :: (body ++ closing) ++ behind)) :
    ∃ r', read r = (.ok text, r') ∧ r'.Stands (before ++ '"' :: (body ++ closing)) behind := by
  have hopen : r.advance.Stands (before ++ ['"']) (body ++ (closing ++ behind)) := by
    simpa using h.advance
  obtain ⟨q, hread, hq⟩ := readRest_of_spells [] hbody hopen (head?_of_closes hclosing)
  obtain ⟨r', hclose, hr'⟩ := readRest_of_closes (text.reverse ++ []) hclosing hq
  refine ⟨r', ?_, by simpa using hr'⟩
  rw [read, hread, hclose]
  simp

end Quoted

/-! ## Tokens -/

namespace Lexis

/-- The places in front of a stretch and behind it are those of its span. -/
theorem spanAt_of_stands {q q' : Reader} {slice rest : List Char}
    (hq : q.Stands before (slice ++ rest)) (hq' : q'.Stands (before ++ slice) rest) :
    (⟨q.offset, q'.offset, q.line⟩ : Span) = spanAt before slice := by
  rw [hq.offset_eq, hq.line_eq, hq'.offset_eq, spanAt]

/-- Where a token stands there is nothing to skip. -/
theorem Lexeme.ends {slice : List Char} {value : Token} (h : Lexeme slice behind value) :
    Trivia.Ends (slice ++ behind) := by
  cases h with
  | openScope => exact ⟨rfl, by simp [Trivia.isBlank]⟩
  | closeScope => exact ⟨rfl, by simp [Trivia.isBlank]⟩
  | terminator => exact ⟨rfl, by simp [Trivia.isBlank]⟩
  | bare hword =>
    refine ⟨hword.noComment _ hword.ne_nil (List.suffix_refl _), fun c hc => ?_⟩
    obtain ⟨d, slice, rfl⟩ := List.exists_cons_of_ne_nil hword.ne_nil
    obtain rfl : d = c := by simpa using hc
    have hd := hword.wordChars d List.mem_cons_self
    rw [Word.isWordChar] at hd
    simp only [Bool.and_eq_true, decide_eq_true_eq] at hd
    refine decide_eq_false fun hblank => ?_
    exact absurd (Char.le_trans hd.1.1.1.1.1 hblank) (by decide)
  | quoted => exact ⟨rfl, by simp [Trivia.isBlank]⟩

/-- A reader in front of a token reads that token and stops behind it. -/
theorem readToken_of_lexeme {slice : List Char} {value : Token}
    (hlexeme : Lexeme slice behind value) (h : r.Faces before (slice ++ behind)) :
    ∃ r', r.readToken = (.ok ⟨value, spanAt before slice⟩, r') ∧
      r'.Stands (before ++ slice) behind := by
  cases hlexeme with
  | openScope =>
    obtain ⟨others, hp⟩ := h.pending_cons
    refine ⟨r.advance, ?_, h.advance⟩
    simp [Reader.readToken, hp, Reader.readStructural, ← spanAt_of_stands h.toStands h.advance]
  | closeScope =>
    obtain ⟨others, hp⟩ := h.pending_cons
    refine ⟨r.advance, ?_, h.advance⟩
    simp [Reader.readToken, hp, Reader.readStructural, ← spanAt_of_stands h.toStands h.advance]
  | terminator =>
    obtain ⟨others, hp⟩ := h.pending_cons
    refine ⟨r.advance, ?_, h.advance⟩
    simp [Reader.readToken, hp, Reader.readStructural, ← spanAt_of_stands h.toStands h.advance]
  | bare hword =>
    obtain ⟨c, slice, rfl⟩ := List.exists_cons_of_ne_nil hword.ne_nil
    obtain ⟨others, hp⟩ := h.pending_cons
    obtain ⟨r', hread, hr'⟩ := Word.read_of_bareWord hword h.toStands
    have hc := hword.wordChars c List.mem_cons_self
    refine ⟨r', ?_, hr'⟩
    have hne : c ≠ '{' ∧ c ≠ '}' ∧ c ≠ ';' ∧ c ≠ '"' := by
      simp only [Word.isWordChar, Bool.and_eq_true, bne_iff_ne] at hc
      exact ⟨hc.1.1.1.2, hc.1.1.2, hc.1.2, hc.2⟩
    simp [Reader.readToken, hp, hne, hc, hread, Reader.locateWord,
      ← spanAt_of_stands h.toStands hr']
  | quoted hbody hclosing =>
    obtain ⟨others, hp⟩ := h.pending_cons
    obtain ⟨r', hread, hr'⟩ := Quoted.read_of_spells hbody hclosing h
    refine ⟨r', ?_, hr'⟩
    simp [Reader.readToken, hp, hread, Reader.locateWord, ← spanAt_of_stands h.toStands hr']

/-- In front of nothing the end of input is read. -/
theorem readToken_of_nil (h : r.Faces before []) :
    r.readToken = (.ok ⟨.endOfInput, spanAt before []⟩, r) := by
  simp [Reader.readToken, h.pending_nil, Reader.here, Span.point, spanAt, h.offset_eq, h.line_eq]

/-- A character that starts no token is reported in its place, and stays. -/
theorem readToken_of_unknown {c : Char} {cs : List Char} (hc : startsToken c = false)
    (h : r.Faces before (c :: cs)) :
    r.readToken = (.error (.atSpan (.unknownCharacter c) (spanAt before [c])), r) := by
  obtain ⟨others, hp⟩ := h.pending_cons
  simp only [startsToken, Bool.or_eq_false_iff, beq_eq_false_iff_ne] at hc
  simp [Reader.readToken, hp, hc, spanAt, h.offset_eq, h.line_eq]

end Lexis

end CommandTree
