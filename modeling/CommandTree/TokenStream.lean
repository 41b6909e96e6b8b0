import CommandTree.Diagnostic
import CommandTree.Token.Quoted

/-!
# Token streams

A token stream takes a source apart into tokens, one at a time and only as far as it is asked. The
next token can be looked at before it is taken. After the end of input every further token is the
end of input again; a token that cannot be read leaves a diagnostic, and what was read before the
failure stays read.

`TokenStream.size` bounds the tokens that are still to come. No operation enlarges it, and taking
a token that is not the end of input makes it smaller, which is why everything that reads tokens
ends. `TokenStream.Reaches` relates a stream to what it can be turned into by taking tokens and
looking at them.
-/

set_option autoImplicit false

namespace CommandTree

/-- The tokens of a source from some point on. -/
structure TokenStream where
  /-- The characters from that point on. -/
  reader : Reader
  /-- The next token, if it was looked at. -/
  peeked : Option (Located Token)
  /-- The line of the latest token. -/
  line : Nat

namespace Reader

/-- The empty span at the next character. -/
def here (r : Reader) : Span := Span.point r.offset r.line

/-- A word that was read from the place where `r` stands. -/
def locateWord (r : Reader) :
    Except ReadFailure (List Char) × Reader → Except Diagnostic (Located Token) × Reader
  | (.ok cs, r') => (.ok ⟨.word (String.ofList cs), ⟨r.offset, r'.offset, r.line⟩⟩, r')
  | (.error e, r') => (.error (.atSpan (.unreadable e) r'.here), r')

/-- Reads a token of one character. -/
def readStructural (r : Reader) (token : Token) : Except Diagnostic (Located Token) × Reader :=
  (.ok ⟨token, ⟨r.offset, r.advance.offset, r.line⟩⟩, r.advance)

/-- Reads the token whose first character is pending; nothing is pending at the end of input. -/
def readToken (r : Reader) : Except Diagnostic (Located Token) × Reader :=
  match r.pending with
  | [] => (.ok ⟨.endOfInput, r.here⟩, r)
  | c :: _ =>
    if c = '{' then r.readStructural .openScope
    else if c = '}' then r.readStructural .closeScope
    else if c = ';' then r.readStructural .terminator
    else if c = '"' then r.locateWord (Quoted.read r)
    else if Word.isWordChar c then r.locateWord (Word.read r)
    else
      let span : Span := ⟨r.offset, r.offset + c.utf8Size, r.line⟩
      (.error (.atSpan (.unknownCharacter c) span), r)

/-- Putting a word in its place does not move the reader. -/
theorem size_locateWord (r : Reader) (x : Except ReadFailure (List Char) × Reader) :
    (r.locateWord x).2 = x.2 := by
  rcases x with ⟨_ | _, _⟩ <;> rfl

/-- Reading a token leaves no more to come than before. -/
theorem size_readToken_le (r : Reader) : r.readToken.2.size ≤ r.size := by
  unfold readToken
  split
  · exact Nat.le_refl _
  · rename_i c _ _
    have ha := size_advance_le r
    have hq := Quoted.size_read_le r
    have hw := Word.size_read_le r
    repeat' split
    all_goals simp only [readStructural, size_locateWord]
    all_goals omega

/-- Where no comment starts, a token other than the end of input takes at least one character. -/
theorem size_readToken_lt {r r' : Reader} {t : Located Token}
    (hcomment : Trivia.startsComment r.pending = false) (h : r.readToken = (.ok t, r'))
    (ht : t.value ≠ .endOfInput) : r'.size < r.size := by
  cases hp : r.pending with
  | nil =>
    simp only [readToken, hp, Prod.mk.injEq, Except.ok.injEq] at h
    rw [← h.1] at ht
    exact absurd rfl ht
  | cons c rest =>
    have ha := size_advance_lt (r := r) (by simp [hp])
    have hq := Quoted.size_read_le r
    have hsnd : r'.size = r.readToken.2.size := by rw [h]
    rw [hsnd]
    unfold readToken at h ⊢
    simp only [hp] at h ⊢
    by_cases hopen : c = '{'
    · rwa [if_pos hopen]
    rw [if_neg hopen] at h ⊢
    by_cases hclose : c = '}'
    · rwa [if_pos hclose]
    rw [if_neg hclose] at h ⊢
    by_cases hsemi : c = ';'
    · rwa [if_pos hsemi]
    rw [if_neg hsemi] at h ⊢
    by_cases hquote : c = '"'
    · rw [if_pos hquote, size_locateWord]
      omega
    rw [if_neg hquote] at h ⊢
    by_cases hword : Word.isWordChar c
    · rw [if_pos hword, size_locateWord]
      rw [hp] at hcomment
      exact Word.size_read_lt hp (by simp [Word.continues, hword, hcomment])
    · rw [if_neg hword] at h
      simp at h

end Reader

namespace TokenStream

/-- The tokens of a source. -/
def ofSource (source : Source) : TokenStream := ⟨Reader.ofSource source, none, 1⟩

/-- All source text loaded so far. -/
def loadedText (s : TokenStream) : String := String.ofList s.reader.loadedText

/-- Reads the token behind the current place, past the trivia before it. -/
def scan (s : TokenStream) : Except Diagnostic (Located Token) × TokenStream :=
  match Trivia.skip s.reader with
  | (.error e, r) => (.error (.atSpan (.unreadable e) r.here), { s with reader := r })
  | (.ok (), r) =>
    match r.readToken with
    | (result, r') => (result, { s with reader := r', line := r.line })

/-- Takes the next token. -/
def next (s : TokenStream) : Except Diagnostic (Located Token) × TokenStream :=
  match s.peeked with
  | some t => (.ok t, { s with peeked := none })
  | none => s.scan

/-- Looks at the next token, which stays in place. -/
def peek (s : TokenStream) : Except Diagnostic (Located Token) × TokenStream :=
  match s.peeked with
  | some t => (.ok t, s)
  | none =>
    match s.scan with
    | (.ok t, s') => (.ok t, { s' with peeked := some t })
    | (.error e, s') => (.error e, s')

/-- Takes the next token if it is a word. -/
def nextWord? (s : TokenStream) : Except Diagnostic (Option (Located String)) × TokenStream :=
  match s.peek with
  | (.error e, s') => (.error e, s')
  | (.ok ⟨.word text, span⟩, s') => (.ok (some ⟨text, span⟩), s'.next.2)
  | (.ok _, s') => (.ok none, s')

/-! ### What is still to come -/

/-- A token that was looked at is still to come; the end of input takes no step. -/
def peekedSize : Option (Located Token) → Nat
  | none => 0
  | some t => if t.value = .endOfInput then 0 else 1

/-- A bound on the tokens that are still to come. -/
def size (s : TokenStream) : Nat := s.reader.size + peekedSize s.peeked

/-- What a stream can become by taking tokens and looking at them. -/
inductive Reaches : TokenStream → TokenStream → Prop where
  /-- It can stay as it is. -/
  | refl (s : TokenStream) : Reaches s s
  /-- A token can be taken. -/
  | next {s s' : TokenStream} : Reaches s.next.2 s' → Reaches s s'
  /-- A token can be looked at. -/
  | peek {s s' : TokenStream} : Reaches s.peek.2 s' → Reaches s s'

namespace Reaches

/-- What can be reached in two steps can be reached. -/
theorem trans {s s' s'' : TokenStream} (h : Reaches s s') (h' : Reaches s' s'') :
    Reaches s s'' := by
  induction h with
  | refl => exact h'
  | next _ ih => exact .next (ih h')
  | peek _ ih => exact .peek (ih h')

/-- Taking a token is a step. -/
theorem next_self (s : TokenStream) : Reaches s s.next.2 := .next (.refl _)

/-- Looking at a token is a step. -/
theorem peek_self (s : TokenStream) : Reaches s s.peek.2 := .peek (.refl _)

/-- If taking a token leads from `s` to `s'`, then `s` can become `s'`. -/
theorem next_of_eq {s s' : TokenStream} {x : Except Diagnostic (Located Token)}
    (h : s.next = (x, s')) : Reaches s s' := by
  have := next_self s
  rwa [h] at this

/-- If a look leads from `s` to `s'`, then `s` can become `s'`. -/
theorem peek_of_eq {s s' : TokenStream} {x : Except Diagnostic (Located Token)}
    (h : s.peek = (x, s')) : Reaches s s' := by
  have := peek_self s
  rwa [h] at this

/-- Taking a token if it is a word is made of these steps. -/
theorem nextWord?_self (s : TokenStream) : Reaches s s.nextWord?.2 := by
  unfold nextWord?
  split <;> rename_i h
  · exact peek_of_eq h
  · exact (peek_of_eq h).trans (next_self _)
  · exact peek_of_eq h

/-- If taking a word leads from `s` to `s'`, then `s` can become `s'`. -/
theorem nextWord?_of_eq {s s' : TokenStream} {x : Except Diagnostic (Option (Located String))}
    (h : s.nextWord? = (x, s')) : Reaches s s' := by
  have := nextWord?_self s
  rwa [h] at this

end Reaches

/-- Scanning leaves no more to come than before. -/
theorem size_scan_le (s : TokenStream) : s.scan.2.size ≤ s.size := by
  have hs := Trivia.size_skip_le s.reader
  unfold scan
  split <;> rename_i r h <;> rw [h] at hs
  · simp only [size] at hs ⊢
    omega
  · have ht := Reader.size_readToken_le r
    simp only [size] at hs ht ⊢
    omega

/-- Scanning a token other than the end of input leaves less to come. -/
theorem size_scan_lt {s s' : TokenStream} {t : Located Token} (h : s.scan = (.ok t, s'))
    (ht : t.value ≠ .endOfInput) : s'.size < s.size := by
  have hs := Trivia.size_skip_le s.reader
  unfold scan at h
  split at h <;> rename_i r hr <;> rw [hr] at hs
  · simp at h
  · simp only [Prod.mk.injEq] at h
    obtain ⟨hx, rfl⟩ := h
    have heq : r.readToken = (.ok t, r.readToken.2) := by rw [← hx]
    have hlt := Reader.size_readToken_lt (Trivia.startsComment_of_skip hr) heq ht
    simp only [size] at hs hlt ⊢
    omega

/-- Scanning does not touch what was looked at. -/
theorem peeked_scan (s : TokenStream) : s.scan.2.peeked = s.peeked := by
  unfold scan
  split <;> rfl

/-- Taking a token leaves no more to come than before. -/
theorem size_next_le (s : TokenStream) : s.next.2.size ≤ s.size := by
  unfold next
  split
  · simp [size, peekedSize]
  · exact size_scan_le s

/-- Taking a token other than the end of input leaves less to come. -/
theorem size_next_lt {s s' : TokenStream} {t : Located Token} (h : s.next = (.ok t, s'))
    (ht : t.value ≠ .endOfInput) : s'.size < s.size := by
  unfold next at h
  split at h
  · rename_i t' hp
    simp only [Prod.mk.injEq, Except.ok.injEq] at h
    obtain ⟨rfl, rfl⟩ := h
    simp [size, peekedSize, hp, ht]
  · exact size_scan_lt h ht

/-- Looking at a token leaves no more to come than before, since the token it keeps counts for the
characters it has. -/
theorem size_peek_le (s : TokenStream) : s.peek.2.size ≤ s.size := by
  unfold peek
  split
  · exact Nat.le_refl _
  · rename_i hp
    have hle := size_scan_le s
    have hpk := peeked_scan s
    split <;> rename_i t s' h <;> rw [h] at hle hpk
    · by_cases ht : t.value = .endOfInput
      · simp only [size, peekedSize, ht] at hle ⊢
        simp only [hp] at hpk
        simp only [hpk] at hle
        simpa using hle
      · have hlt := size_scan_lt h ht
        simp only [size, peekedSize, ht] at hlt ⊢
        simp only [hp] at hpk
        simp only [hpk] at hlt
        simp only [if_false] at hlt ⊢
        omega
    · exact hle

/-- A successful look leaves the token it found in place. -/
theorem peeked_of_peek {s s' : TokenStream} {t : Located Token} (h : s.peek = (.ok t, s')) :
    s'.peeked = some t := by
  unfold peek at h
  split at h
  · rename_i hp
    simp only [Prod.mk.injEq, Except.ok.injEq] at h
    obtain ⟨rfl, rfl⟩ := h
    exact hp
  · split at h
    · simp only [Prod.mk.injEq, Except.ok.injEq] at h
      obtain ⟨rfl, rfl⟩ := h
      rfl
    · simp at h

/-- A token that was looked at is the one that is taken next. -/
theorem next_of_peeked {s : TokenStream} {t : Located Token} (h : s.peeked = some t) :
    s.next = (.ok t, { s with peeked := none }) := by
  simp [next, h]

/-- Taking a word leaves less to come. -/
theorem size_nextWord?_lt {s s' : TokenStream} {w : Located String}
    (h : s.nextWord? = (.ok (some w), s')) : s'.size < s.size := by
  have hle := size_peek_le s
  unfold nextWord? at h
  split at h
  · simp at h
  · rename_i text span q hq
    simp only [Prod.mk.injEq, Except.ok.injEq, Option.some.injEq] at h
    obtain ⟨_, rfl⟩ := h
    rw [hq] at hle
    have hlt := size_next_lt (next_of_peeked (peeked_of_peek hq)) (by simp)
    rw [next_of_peeked (peeked_of_peek hq)]
    exact Nat.lt_of_lt_of_le hlt hle
  · simp at h

/-- Whatever a stream becomes has no more to come than the stream. -/
theorem size_le_of_reaches {s s' : TokenStream} (h : Reaches s s') : s'.size ≤ s.size := by
  induction h with
  | refl => exact Nat.le_refl _
  | next _ ih => exact Nat.le_trans ih (size_next_le _)
  | peek _ ih => exact Nat.le_trans ih (size_peek_le _)

end TokenStream

end CommandTree
