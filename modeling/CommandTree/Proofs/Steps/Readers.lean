import CommandTree.Proofs.Lockstep.Readers

/-!
# What the readers are made of

All that the loops over a reader do is look at the characters that are pending, loading a line if
there is none, and pass one of them. The equations below put each loop together from these two
steps. A property of steps that holds of both and is kept by sequencing therefore holds of every
loop, and `Reader.Composes` is that condition. A second step matters only behind a first one that
succeeded, so sequencing may use that it did.

The loops call themselves, so the property of a loop is proved by induction on what is left to
read. A token is read in one of four ways, of which only the reading of words is a loop.
-/

set_option autoImplicit false

namespace CommandTree

namespace Reader

/-- A step of a reader, with a result or a failure. -/
abbrev Step (α : Type) : Type := Reader → Except ReadFailure α × Reader

namespace Step

variable {α β : Type}

/-- Does nothing. -/
def done (a : α) : Step α := fun r => (.ok a, r)

/-- Does one step and, if it succeeds, another one. -/
def andThen (m : Step α) (f : α → Step β) : Step β := fun r =>
  match m r with
  | (.ok a, q) => f a q
  | (.error e, q) => (.error e, q)

/-- The characters that are pending when a line was loaded if there was none. -/
def look : Step (List Char) := fun r =>
  match r.fill with
  | (.ok (), q) => (.ok q.pending, q)
  | (.error e, q) => (.error e, q)

/-- Passes the first pending character. -/
def pass : Step Unit := fun r => (.ok (), r.advance)

variable {r q : Reader}

/-- The second step starts where the first one succeeds. -/
theorem andThen_of_ok {m : Step α} {a : α} (h : m r = (.ok a, q)) (f : α → Step β) :
    m.andThen f r = f a q := by
  rw [andThen, h]

/-- The failure of the first step is that of both. -/
theorem andThen_of_error {m : Step α} {e : ReadFailure} (h : m r = (.error e, q))
    (f : α → Step β) : m.andThen f r = (.error e, q) := by
  rw [andThen, h]

/-- Two steps succeed only if both of them do. -/
theorem andThen_eq_ok {m : Step α} {f : α → Step β} {b : β} (h : m.andThen f r = (.ok b, q)) :
    ∃ a p, m r = (.ok a, p) ∧ f a p = (.ok b, q) := by
  unfold andThen at h
  split at h
  · rename_i a p hm
    exact ⟨a, p, hm, h⟩
  · simp at h

/-- A look finds what is pending once a line is loaded. -/
theorem look_of_ok (h : r.fill = (.ok (), q)) : look r = (.ok q.pending, q) := by
  rw [look, h]

/-- A look fails as loading a line does. -/
theorem look_of_error {e : ReadFailure} (h : r.fill = (.error e, q)) :
    look r = (.error e, q) := by
  rw [look, h]

/-- What a look finds is pending behind it. -/
theorem fill_of_look {cs : List Char} (h : look r = (.ok cs, q)) :
    r.fill = (.ok (), q) ∧ cs = q.pending := by
  unfold look at h
  split at h
  · rename_i hfill
    rw [Prod.mk.injEq, Except.ok.injEq] at h
    obtain ⟨rfl, rfl⟩ := h
    exact ⟨hfill, rfl⟩
  · simp at h

end Step

open Step (look pass done)

/-! ## The loops in steps -/

/-- Handing out a character is a look and a pass. -/
theorem next_eq : next = look.andThen fun cs => pass.andThen fun _ => done cs.head? := by
  funext r
  rcases hfill : r.fill with ⟨e | ⟨⟩, q⟩
  · rw [next, hfill, Step.andThen_of_error (Step.look_of_error hfill)]
  · rw [next, hfill, Step.andThen_of_ok (Step.look_of_ok hfill)]
    rfl

/-- Finding the next character is a look. -/
theorem peek_eq : peek = look.andThen fun cs => done cs.head? := by
  funext r
  rcases hfill : r.fill with ⟨e | ⟨⟩, q⟩
  · rw [peek, hfill, Step.andThen_of_error (Step.look_of_error hfill)]
  · rw [peek, hfill, Step.andThen_of_ok (Step.look_of_ok hfill)]
    rfl

end Reader

open Reader.Step (done andThen look pass andThen_of_ok andThen_of_error look_of_ok look_of_error)

namespace Trivia

/-- Skipping a line is to hand out characters through a newline. -/
theorem skipLine_eq :
    skipLine = andThen Reader.next fun
      | none => done ()
      | some c => if c = '\n' then done () else skipLine := by
  funext r
  rcases hnext : r.next with ⟨e | _ | c, q⟩
  · rw [skipLine_of_error hnext, andThen_of_error hnext]
  · rw [skipLine_of_none hnext, andThen_of_ok hnext]
    rfl
  · rw [skipLine_of_some hnext, andThen_of_ok hnext]
    by_cases hc : c = '\n'
    · simp only [if_pos hc, done]
    · simp only [if_neg hc]

/-- Skipping a block comment is to hand out characters through a star and a slash. -/
theorem skipBlock_eq :
    skipBlock = andThen Reader.next fun
      | none => done ()
      | some c =>
        if c = '*' then
          andThen Reader.peek fun next => if next = some '/' then pass else skipBlock
        else skipBlock := by
  funext r
  rcases hnext : r.next with ⟨e | _ | c, q⟩
  · rw [skipBlock_of_error hnext, andThen_of_error hnext]
  · rw [skipBlock_of_none hnext, andThen_of_ok hnext]
    rfl
  · rw [andThen_of_ok hnext]
    by_cases hstar : c = '*'
    · subst hstar
      simp only [if_true]
      rcases hpeek : q.peek with ⟨e | next, q'⟩
      · rw [skipBlock_of_star_error hnext hpeek, andThen_of_error hpeek]
      · rw [skipBlock_of_star hnext hpeek, andThen_of_ok hpeek]
        by_cases hslash : next = some '/'
        · simp only [if_pos hslash]
          rfl
        · simp only [if_neg hslash]
    · simp only [if_neg hstar]
      exact skipBlock_of_other hnext hstar

/-- Skipping trivia is made of looks, passes and the skipping of comments. -/
theorem skip_eq :
    skip = look.andThen fun cs =>
      if startsLineComment cs then
        pass.andThen fun _ => pass.andThen fun _ => andThen skipLine fun _ => skip
      else if startsBlockComment cs then
        pass.andThen fun _ => pass.andThen fun _ => andThen skipBlock fun _ => skip
      else if cs.head?.any isBlank then pass.andThen fun _ => skip
      else done () := by
  funext r
  rcases hfill : r.fill with ⟨e | ⟨⟩, q⟩
  · rw [skip_of_error hfill, andThen_of_error (look_of_error hfill)]
  rw [andThen_of_ok (look_of_ok hfill)]
  cases hline : startsLineComment q.pending with
  | true =>
    simp only [if_true]
    show _ = andThen skipLine (fun _ => skip) q.advance.advance
    rcases hskip : skipLine q.advance.advance with ⟨e | ⟨⟩, q'⟩
    · rw [skip_of_line_error hfill hline hskip, andThen_of_error hskip]
    · rw [skip_of_line hfill hline hskip, andThen_of_ok hskip]
  | false =>
  simp only [Bool.false_eq_true, if_false]
  cases hblock : startsBlockComment q.pending with
  | true =>
    simp only [if_true]
    show _ = andThen skipBlock (fun _ => skip) q.advance.advance
    rcases hskip : skipBlock q.advance.advance with ⟨e | ⟨⟩, q'⟩
    · rw [skip_of_block_error hfill hline hblock hskip, andThen_of_error hskip]
    · rw [skip_of_block hfill hline hblock hskip, andThen_of_ok hskip]
  | false =>
  simp only [Bool.false_eq_true, if_false]
  have hnone : startsComment q.pending = false := by rw [startsComment, hline, hblock]; rfl
  cases hhead : q.pending.head? with
  | none =>
    simp only [Option.any_none, Bool.false_eq_true, if_false]
    exact skip_of_ends hfill ⟨hnone, by simp [hhead]⟩
  | some c =>
  cases hblank : isBlank c with
  | true =>
    simp only [Option.any_some, hblank, if_true]
    exact skip_of_blank hfill hnone hhead hblank
  | false =>
    have hends : Ends q.pending := by
      refine ⟨hnone, fun d hd => ?_⟩
      obtain rfl : c = d := Option.some.inj (hhead.symm.trans hd)
      exact hblank
    simp only [Option.any_some, hblank, Bool.false_eq_true, if_false]
    exact skip_of_ends hfill hends

end Trivia

/-- Reading a word is made of looks and passes. -/
theorem Word.readRest_eq (read : List Char) :
    readRest read = look.andThen fun
      | [] => done read.reverse
      | c :: rest =>
        if continues (c :: rest) then pass.andThen fun _ => readRest (c :: read)
        else done read.reverse := by
  funext r
  rcases hfill : r.fill with ⟨e | ⟨⟩, q⟩
  · rw [readRest_of_error read hfill, andThen_of_error (look_of_error hfill)]
  rw [andThen_of_ok (look_of_ok hfill)]
  cases hp : q.pending with
  | nil => exact readRest_of_stops read hfill (by rw [hp]; rfl)
  | cons c rest =>
  cases hcontinues : continues (c :: rest) with
  | true =>
    simp only [hcontinues, if_true]
    exact readRest_of_continues read hfill (by rw [hp]; rfl) (by rw [hp, hcontinues])
  | false =>
    simp only [hcontinues, Bool.false_eq_true, if_false]
    exact readRest_of_stops read hfill (by rw [hp, hcontinues])

namespace Quoted

/-- Reading octal digits is made of looks and passes. -/
theorem readOctal_succ (count value : Nat) :
    readOctal (count + 1) value = look.andThen fun cs =>
      match cs.head?.bind octalDigit? with
      | some digit => pass.andThen fun _ => readOctal count (value * 8 + digit)
      | none => done value := by
  funext r
  rcases hfill : r.fill with ⟨e | ⟨⟩, q⟩
  · rw [andThen_of_error (look_of_error hfill), readOctal, hfill]
  · rw [andThen_of_ok (look_of_ok hfill)]
    simp only [readOctal, hfill]
    cases q.pending.head?.bind octalDigit? with
    | none => rfl
    | some digit => rfl

/-- Reading an escape is made of looks and passes. -/
theorem readEscape_eq :
    readEscape = andThen Reader.next fun
      | none => done none
      | some c =>
        match octalDigit? c with
        | some digit => andThen (readOctal (octalDigitsAfter digit) digit) fun value =>
            done (some (Char.ofNat value))
        | none => done (some ((controlOfLetter c).getD c)) := by
  funext r
  rcases hnext : r.next with ⟨e | _ | c, q⟩
  · rw [andThen_of_error hnext, readEscape, hnext]
  · rw [andThen_of_ok hnext, readEscape, hnext]
    rfl
  · rw [andThen_of_ok hnext]
    simp only [readEscape, hnext]
    cases octalDigit? c with
    | none => rfl
    | some digit =>
      rcases hread : readOctal (octalDigitsAfter digit) digit q with ⟨e | value, q'⟩
      · simp only [andThen_of_error hread, hread]
      · simp only [andThen_of_ok hread, hread, done]

/-- Reading a quoted word is made of looks and passes. -/
theorem readRest_eq (read : List Char) :
    readRest read = look.andThen fun
      | [] => done read.reverse
      | c :: _ =>
        if c = '"' then pass.andThen fun _ => done read.reverse
        else if isLineEnd c then done read.reverse
        else if c = '\\' then
          pass.andThen fun _ => andThen readEscape fun decoded => readRest (decoded.toList ++ read)
        else pass.andThen fun _ => readRest (c :: read) := by
  funext r
  rcases hfill : r.fill with ⟨e | ⟨⟩, q⟩
  · rw [readRest_of_error read hfill, andThen_of_error (look_of_error hfill)]
  rw [andThen_of_ok (look_of_ok hfill)]
  cases hp : q.pending with
  | nil => exact readRest_of_nil read hfill hp
  | cons c rest =>
  have hhead : q.pending.head? = some c := by rw [hp]; rfl
  by_cases hquote : c = '"'
  · subst hquote
    simp only [if_true]
    exact readRest_of_quote read hfill hhead
  cases hline : isLineEnd c with
  | true =>
    simp only [if_neg hquote, hline, if_true]
    exact readRest_of_lineEnd read hfill hhead hline
  | false =>
  by_cases hslash : c = '\\'
  · subst hslash
    simp only [if_neg hquote, hline, Bool.false_eq_true, if_false, if_true]
    show _ = andThen readEscape _ q.advance
    rcases he : readEscape q.advance with ⟨e | decoded, q'⟩
    · rw [andThen_of_error he, readRest_of_escape_error read hfill hhead he]
    · rw [andThen_of_ok he, readRest_of_escape read hfill hhead he]
  · simp only [if_neg hquote, hline, Bool.false_eq_true, if_false, if_neg hslash]
    exact readRest_of_plain read hfill hhead hquote hslash hline

end Quoted

/-! ## Properties of steps -/

namespace Reader

/-- A property that every step has which is put together from looking and passing. -/
structure Composes (Q : ∀ {α : Type}, Step α → Reader → Prop) : Prop where
  /-- It holds of doing nothing. -/
  done {α : Type} (a : α) (r : Reader) : Q (Step.done a) r
  /-- It holds of looking. -/
  look (r : Reader) : Q Step.look r
  /-- It holds of passing a character. -/
  pass (r : Reader) : Q Step.pass r
  /-- It is kept by sequencing. -/
  andThen {α β : Type} {m : Step α} {f : α → Step β} {r : Reader} :
    Q m r → (∀ a q, m r = (.ok a, q) → Q (f a) q) → Q (m.andThen f) r

namespace Composes

variable {Q : ∀ {α : Type}, Step α → Reader → Prop} (h : Composes @Q)
include h

/-- A property that composes holds of handing out a character. -/
theorem next (r : Reader) : Q Reader.next r := by
  rw [next_eq]
  apply h.andThen (h.look r)
  intro cs q _
  exact h.andThen (h.pass q) fun _ q' _ => h.done _ q'

/-- A property that composes holds of finding the next character. -/
theorem peek (r : Reader) : Q Reader.peek r := by
  rw [peek_eq]
  exact h.andThen (h.look r) fun _ q _ => h.done _ q

/-- Passing a character and going on with less left to read. -/
theorem passThen {β : Type} {f : Unit → Step β} {q : Reader} (hf : Q (f ()) q.advance) :
    Q (Step.pass.andThen f) q := by
  apply h.andThen (h.pass q)
  intro _ q' hpass
  rw [Step.pass, Prod.mk.injEq] at hpass
  rwa [← hpass.2]

/-- A property that composes holds of skipping a line. -/
theorem skipLine (r : Reader) : Q Trivia.skipLine r := by
  rw [Trivia.skipLine_eq]
  apply h.andThen (h.next r)
  intro c q hnext
  cases c with
  | none => exact h.done _ q
  | some c =>
    have hlt := size_next_lt hnext
    dsimp only
    split
    · exact h.done _ q
    · exact skipLine q
termination_by r.size

/-- A property that composes holds of skipping a block comment. -/
theorem skipBlock (r : Reader) : Q Trivia.skipBlock r := by
  rw [Trivia.skipBlock_eq]
  apply h.andThen (h.next r)
  intro c q hnext
  cases c with
  | none => exact h.done _ q
  | some c =>
    have hlt := size_next_lt hnext
    dsimp only
    split
    · apply h.andThen (h.peek q)
      intro next q' hpeek
      have hle := size_peek_le_of_eq hpeek
      split
      · exact h.pass q'
      · exact skipBlock q'
    · exact skipBlock q
termination_by r.size

/-- A property that composes holds of skipping trivia. -/
theorem skip (r : Reader) : Q Trivia.skip r := by
  rw [Trivia.skip_eq]
  apply h.andThen (h.look r)
  intro cs q hlook
  obtain ⟨hfill, rfl⟩ := Step.fill_of_look hlook
  have hle := size_fill_le_of_eq hfill
  split
  · rename_i hline
    have hlt := Trivia.size_advance_advance_lt (Trivia.ne_nil_of_startsLineComment hline)
    apply h.passThen
    apply h.passThen
    apply h.andThen (h.skipLine _)
    intro _ q' hskip
    have hle' : q'.size ≤ q.advance.advance.size := by
      have hskipped := Trivia.size_skipLine_le q.advance.advance
      rwa [hskip] at hskipped
    exact skip q'
  split
  · rename_i hblock
    have hlt := Trivia.size_advance_advance_lt (Trivia.ne_nil_of_startsBlockComment hblock)
    apply h.passThen
    apply h.passThen
    apply h.andThen (h.skipBlock _)
    intro _ q' hskip
    have hle' : q'.size ≤ q.advance.advance.size := by
      have hskipped := Trivia.size_skipBlock_le q.advance.advance
      rwa [hskip] at hskipped
    exact skip q'
  split
  · rename_i hblank
    have hlt := size_advance_lt (r := q) (by rintro hp; simp [hp] at hblank)
    apply h.passThen
    exact skip q.advance
  · exact h.done _ q
termination_by r.size
decreasing_by all_goals omega

/-- A property that composes holds of reading the rest of a word. -/
theorem readBareRest (read : List Char) (r : Reader) : Q (Word.readRest read) r := by
  rw [Word.readRest_eq]
  apply h.andThen (h.look r)
  intro cs q hlook
  obtain ⟨hfill, hcs⟩ := Step.fill_of_look hlook
  have hle := size_fill_le_of_eq hfill
  cases cs with
  | nil => exact h.done _ q
  | cons c rest =>
    have hlt := size_advance_lt (r := q) (by simp [← hcs])
    dsimp only
    split
    · apply h.passThen
      exact readBareRest (c :: read) q.advance
    · exact h.done _ q
termination_by r.size

/-- A property that composes holds of reading octal digits. -/
theorem readOctal (count value : Nat) (r : Reader) : Q (Quoted.readOctal count value) r := by
  induction count generalizing value r with
  | zero => exact h.done value r
  | succ count ih =>
    rw [Quoted.readOctal_succ]
    apply h.andThen (h.look r)
    intro cs q _
    split
    · apply h.passThen
      exact ih _ q.advance
    · exact h.done _ q

/-- A property that composes holds of reading an escape. -/
theorem readEscape (r : Reader) : Q Quoted.readEscape r := by
  rw [Quoted.readEscape_eq]
  apply h.andThen (h.next r)
  intro c q _
  cases c with
  | none => exact h.done _ q
  | some c =>
    dsimp only
    split
    · apply h.andThen (h.readOctal _ _ q)
      intro value q' _
      exact h.done _ q'
    · exact h.done _ q

/-- A property that composes holds of reading the rest of a quoted word. -/
theorem readQuotedRest (read : List Char) (r : Reader) : Q (Quoted.readRest read) r := by
  rw [Quoted.readRest_eq]
  apply h.andThen (h.look r)
  intro cs q hlook
  obtain ⟨hfill, hcs⟩ := Step.fill_of_look hlook
  have hle := size_fill_le_of_eq hfill
  cases cs with
  | nil => exact h.done _ q
  | cons c rest =>
    have hlt := size_advance_lt (r := q) (by simp [← hcs])
    dsimp only
    split
    · apply h.passThen
      exact h.done _ _
    split
    · exact h.done _ q
    split
    · apply h.passThen
      apply h.andThen (h.readEscape _)
      intro decoded q' hescape
      have hle' := Quoted.size_readEscape_le_of_eq hescape
      exact readQuotedRest _ q'
    · apply h.passThen
      exact readQuotedRest _ q.advance
termination_by r.size

/-- A property that composes holds of reading a word. -/
theorem readBare (r : Reader) : Q Word.read r := h.readBareRest [] r

/-- A property that composes holds of reading a quoted word. -/
theorem readQuoted (r : Reader) : Q Quoted.read r := by
  show Q (Step.pass.andThen fun _ => Quoted.readRest []) r
  exact h.passThen (h.readQuotedRest [] r.advance)

end Composes

/-! ## Tokens -/

/-- The ways in which a reader reads the token that stands at what is pending. -/
inductive ReadsToken (r : Reader) :
    (Reader → Except Diagnostic (Located Token) × Reader) → Prop where
  /-- Nothing is pending. -/
  | endOfInput : r.pending = [] → ReadsToken r fun q => (.ok ⟨.endOfInput, q.here⟩, q)
  /-- A token of one character. -/
  | structural (token : Token) : token ≠ .endOfInput → ReadsToken r fun q => q.readStructural token
  /-- A word, which is read by looking and passing. -/
  | word (m : Step (List Char)) :
    (∀ {Q : ∀ {α : Type}, Step α → Reader → Prop}, Composes @Q → Q m r) →
      ReadsToken r fun q => q.locateWord (m q)
  /-- A character that starts no token. -/
  | unknown (c : Char) : ReadsToken r fun q =>
    (.error (.atSpan (.unknownCharacter c) ⟨q.offset, q.offset + c.utf8Size, q.line⟩), q)

/-- What is pending decides how a token is read. -/
theorem exists_readsToken (r : Reader) :
    ∃ m, r.ReadsToken m ∧ ∀ q : Reader, q.pending = r.pending → q.readToken = m q := by
  cases hp : r.pending with
  | nil => exact ⟨_, .endOfInput hp, fun q hq => by simp [readToken, hq]⟩
  | cons c rest =>
  by_cases hopen : c = '{'
  · exact ⟨_, .structural .openScope (by simp), fun q hq => by simp [readToken, hq, hopen]⟩
  by_cases hclose : c = '}'
  · exact ⟨_, .structural .closeScope (by simp), fun q hq => by simp [readToken, hq, hclose]⟩
  by_cases hsemi : c = ';'
  · exact ⟨_, .structural .terminator (by simp), fun q hq => by simp [readToken, hq, hsemi]⟩
  by_cases hquote : c = '"'
  · exact ⟨_, .word Quoted.read fun h => h.readQuoted r, fun q hq => by
      simp [readToken, hq, hquote]⟩
  cases hword : Word.isWordChar c with
  | true =>
    exact ⟨_, .word Word.read fun h => h.readBare r, fun q hq => by
      simp [readToken, hq, hopen, hclose, hsemi, hquote, hword]⟩
  | false =>
    exact ⟨_, .unknown c, fun q hq => by
      simp [readToken, hq, hopen, hclose, hsemi, hquote, hword]⟩

end Reader

end CommandTree
