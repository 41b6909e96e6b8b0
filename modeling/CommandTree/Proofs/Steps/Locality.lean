import CommandTree.Proofs.Steps.Readers
import CommandTree.Proofs.Steps.Readings

/-!
# Input that was not loaded has no influence

A reader that does something loads lines on the way, and what it does depends on these lines only:
with the same lines followed by anything else it does the same. The end of input is the exception,
because a reader notices that no line is left. A reader that has still something ahead of it has not
noticed that.

`Reader.Local` and `Reading.Local` say this of a step. A step that fails because the source cannot
be read on is left out, since such a step did depend on what comes next.
-/

set_option autoImplicit false

namespace CommandTree

/-- The source that starts with some lines and goes on as another one. -/
def Source.prepend (lines : List Line) (source : Source) : Source :=
  ⟨lines ++ source.lines, source.ending⟩

/-- Without lines in front a source stays as it is. -/
@[simp] theorem Source.prepend_nil (source : Source) : source.prepend [] = source := rfl

/-- Lines in front of lines are all in front of the source. -/
theorem Source.prepend_append (lines lines' : List Line) (source : Source) :
    source.prepend (lines ++ lines') = (source.prepend lines').prepend lines := by
  simp [prepend]

/-! ## Readers -/

namespace Reader

/-- The reader with other input ahead of it. -/
def facing (r : Reader) (ahead : Source) : Reader := { r with ahead := ahead }

/-- What is ahead does not matter to what is pending. -/
@[simp] theorem facing_pending (r : Reader) (ahead : Source) :
    (r.facing ahead).pending = r.pending := rfl

/-- Passing a character does not depend on what is ahead. -/
@[simp] theorem facing_advance (r : Reader) (ahead : Source) :
    (r.facing ahead).advance = r.advance.facing ahead := by
  obtain ⟨_ | ⟨c, rest⟩, offset, line, loaded, _⟩ := r <;> rfl

/-- Passing a character loads nothing. -/
@[simp] theorem advance_ahead (r : Reader) : r.advance.ahead = r.ahead := by
  unfold advance
  split <;> rfl

/-- Passing a character does not change the text that was loaded. -/
@[simp] theorem loadedText_advance (r : Reader) : r.advance.loadedText = r.loadedText := by
  unfold advance
  split <;> rfl

/-- Between two readers `lines` were loaded, and all of them are text. -/
structure LoadsTo (r q : Reader) (lines : List Line) : Prop where
  /-- Each line is text. -/
  text : Line.undecodable ∉ lines
  /-- The lines were ahead. -/
  ahead_eq : r.ahead = q.ahead.prepend lines
  /-- Their text was loaded. -/
  loadedText_eq : q.loadedText = r.loadedText ++ lines.flatMap Line.chars
  /-- What was loaded was handed out or is pending. -/
  offset_eq : q.offset + Bytes.count q.pending =
    r.offset + Bytes.count r.pending + Bytes.count (lines.flatMap Line.chars)

variable {α β : Type} {r p q : Reader} {lines lines' : List Line}

namespace LoadsTo

/-- A reader that stays loads nothing. -/
theorem refl (r : Reader) : r.LoadsTo r [] := ⟨by simp, rfl, by simp, by simp⟩

/-- A reader that passes a character loads nothing. -/
theorem advance (r : Reader) : r.LoadsTo r.advance [] := by
  refine ⟨by simp, by simp, by simp, ?_⟩
  obtain ⟨_ | ⟨c, rest⟩, offset, line, loaded, ahead⟩ := r
  · rfl
  · simp [Reader.advance, Nat.add_assoc]

/-- Lines that are loaded one after the other are loaded together. -/
theorem trans (h : r.LoadsTo p lines) (h' : p.LoadsTo q lines') :
    r.LoadsTo q (lines ++ lines') := by
  refine ⟨?_, ?_, ?_, ?_⟩
  · simp [h.text, h'.text]
  · rw [h.ahead_eq, h'.ahead_eq, Source.prepend_append]
  · rw [h'.loadedText_eq, h.loadedText_eq, List.flatMap_append, List.append_assoc]
  · rw [h'.offset_eq, h.offset_eq, List.flatMap_append, Bytes.count_append, Nat.add_assoc]

/-- Where nothing is left nothing was loaded. -/
theorem ahead_ne (h : r.LoadsTo q lines) (hmore : q.ahead ≠ ⟨[], .endOfInput⟩) :
    r.ahead ≠ ⟨[], .endOfInput⟩ := by
  intro hend
  have hahead := h.ahead_eq
  rw [hend, Source.prepend, Source.mk.injEq] at hahead
  obtain ⟨hlines, hending⟩ := hahead
  apply hmore
  rw [(List.append_eq_nil_iff.mp hlines.symm).2.symm, hending]

end LoadsTo

/-- A step that succeeds depends on the lines that it loads and on nothing behind them. -/
def Local (m : Step α) (r : Reader) : Prop :=
  ∀ a q, m r = (.ok a, q) → ∃ lines, r.LoadsTo q lines ∧
    (q.ahead ≠ ⟨[], .endOfInput⟩ →
      ∀ ahead, m (r.facing (.prepend lines ahead)) = (.ok a, q.facing ahead))

/-- Looking loads one line at most and depends on no other. -/
theorem local_look (r : Reader) : Local Step.look r := by
  intro cs q h
  obtain ⟨hfill, rfl⟩ := Step.fill_of_look h
  obtain ⟨pending, offset, line, loaded, ahead⟩ := r
  cases pending with
  | cons c rest =>
    obtain rfl := (Prod.mk.inj hfill).2
    exact ⟨[], .refl _, fun _ _ => rfl⟩
  | nil =>
  obtain ⟨_ | ⟨first, lines⟩, ending⟩ := ahead
  · cases ending with
    | endOfInput =>
      obtain rfl := (Prod.mk.inj hfill).2
      exact ⟨[], .refl _, fun hmore => absurd rfl hmore⟩
    | failure remainder message => simp [fill] at hfill
  · cases first with
    | text c others =>
      obtain rfl := (Prod.mk.inj hfill).2
      refine ⟨[.text c others], ⟨by simp, rfl, ?_, ?_⟩, fun _ _ => rfl⟩
      · simp [loadedText, Line.chars]
      · simp [Line.chars]
    | undecodable => simp [fill] at hfill

/-- Every step that is put together from looking and passing depends only on the lines that it
loads. -/
theorem composes_local : Composes @Local where
  done a r := by
    intro b q h
    obtain ⟨rfl, rfl⟩ : a = b ∧ r = q := by simpa [Step.done] using h
    exact ⟨[], .refl r, fun _ _ => rfl⟩
  look := local_look
  pass r := by
    intro a q h
    obtain rfl := (Prod.mk.inj h).2
    refine ⟨[], .advance r, fun _ ahead => ?_⟩
    rw [Source.prepend_nil, Step.pass, facing_advance]
  andThen {α β m f r} hm hf := by
    intro b q h
    obtain ⟨a, p, hm', hf'⟩ := Step.andThen_eq_ok h
    obtain ⟨lines, hloads, hsame⟩ := hm a p hm'
    obtain ⟨lines', hloads', hsame'⟩ := hf a p hm' b q hf'
    refine ⟨lines ++ lines', hloads.trans hloads', fun hmore ahead => ?_⟩
    -- the first step sees the lines of the second one as what is ahead
    have hfirst := hsame (hloads'.ahead_ne hmore) (.prepend lines' ahead)
    rw [Source.prepend_append, Step.andThen_of_ok hfirst, hsame' hmore ahead]

end Reader

/-! ## Tokens -/

/-- The diagnostic says that the source could not be read on. -/
def Diagnostic.IsReadFailure (d : Diagnostic) : Prop := ∃ e, d.problem = .unreadable e

namespace Reader

variable {r q : Reader}

/-- A step that reads a token depends on the lines that it loads and on nothing behind them, unless
the source could not be read on. -/
def LocalToken (m : Reader → Except Diagnostic (Located Token) × Reader) (r : Reader) : Prop :=
  ∀ x q, m r = (x, q) → (∃ d, x = .error d ∧ d.IsReadFailure) ∨
    ∃ lines, r.LoadsTo q lines ∧ (q.ahead ≠ ⟨[], .endOfInput⟩ →
      ∀ ahead, m (r.facing (.prepend lines ahead)) = (x, q.facing ahead))

/-- A word is local if reading its characters is. -/
theorem localToken_locateWord {m : Step (List Char)} (h : Local m r) :
    LocalToken (fun r => r.locateWord (m r)) r := by
  intro x q hx
  rcases hm : m r with ⟨e | cs, q'⟩
  · simp only [hm, locateWord, Prod.mk.injEq] at hx
    exact .inl ⟨_, hx.1.symm, e, rfl⟩
  · simp only [hm, locateWord, Prod.mk.injEq] at hx
    obtain ⟨rfl, rfl⟩ := hx
    obtain ⟨lines, hloads, hsame⟩ := h cs q' hm
    refine .inr ⟨lines, hloads, fun hmore ahead => ?_⟩
    simp only [hsame hmore ahead, locateWord]
    rfl

/-- A token of one character is local. -/
theorem localToken_readStructural (token : Token) (r : Reader) :
    LocalToken (fun r => r.readStructural token) r := by
  intro x q hx
  simp only [readStructural, Prod.mk.injEq] at hx
  obtain ⟨rfl, rfl⟩ := hx
  refine .inr ⟨[], .advance r, fun _ ahead => ?_⟩
  simp only [Source.prepend_nil, readStructural, facing_advance]
  rfl

/-- What stays where it is depends on nothing ahead. -/
theorem localToken_of_stays {m : Reader → Except Diagnostic (Located Token) × Reader}
    {x : Except Diagnostic (Located Token)}
    (h : ∀ ahead, m (r.facing ahead) = (x, r.facing ahead)) : LocalToken m r := by
  intro y q hy
  obtain ⟨rfl, rfl⟩ := Prod.mk.inj ((h r.ahead).symm.trans hy)
  exact .inr ⟨[], .refl r, fun _ ahead => h ahead⟩

/-- Each way to read a token is local. -/
theorem ReadsToken.localToken {m : Reader → Except Diagnostic (Located Token) × Reader}
    (h : r.ReadsToken m) : LocalToken m r := by
  cases h with
  | endOfInput => exact localToken_of_stays (x := .ok ⟨.endOfInput, r.here⟩) fun _ => rfl
  | structural token => exact localToken_readStructural token r
  | word m hm => exact localToken_locateWord (hm composes_local)
  | unknown c =>
    let span : Span := ⟨r.offset, r.offset + c.utf8Size, r.line⟩
    exact localToken_of_stays (x := .error (.atSpan (.unknownCharacter c) span)) fun _ => rfl

/-- Reading a token depends only on the lines that it loads. -/
theorem localToken_readToken (r : Reader) : LocalToken readToken r := by
  obtain ⟨m, hm, heq⟩ := r.exists_readsToken
  intro x q hx
  rcases hm.localToken x q ((heq r rfl).symm.trans hx) with hfails | ⟨lines, hloads, hsame⟩
  · exact .inl hfails
  · refine .inr ⟨lines, hloads, fun hmore ahead => ?_⟩
    rw [heq _ (facing_pending r _), hsame hmore ahead]

end Reader

/-! ## Readings -/

/-- The stream with other input ahead of it. -/
def TokenStream.facing (s : TokenStream) (ahead : Source) : TokenStream :=
  { s with reader := s.reader.facing ahead }

/-- A reading depends on the lines that it loads and on nothing behind them, unless the source could
not be read on. -/
def Reading.Local {α : Type} (m : Reading Diagnostic α) (s : TokenStream) : Prop :=
  ∀ x s', m s = (x, s') → (∃ d, x = .error d ∧ d.IsReadFailure) ∨
    ∃ lines, s.reader.LoadsTo s'.reader lines ∧ (s'.reader.ahead ≠ ⟨[], .endOfInput⟩ →
      ∀ ahead, m (s.facing (.prepend lines ahead)) = (x, s'.facing ahead))

namespace Reading

variable {α : Type} {s : TokenStream}

/-- What comes to a result or a failure without reading does not depend on the input. -/
theorem Local.of_stays {m : Reading Diagnostic α} (x : Except Diagnostic α) (s' : TokenStream)
    (hreader : s'.reader = s.reader)
    (h : ∀ ahead, m (s.facing ahead) = (x, s'.facing ahead)) : m.Local s := by
  intro y q hq
  have hsame := (h s.reader.ahead).symm.trans hq
  have hself : s'.facing s.reader.ahead = s' := by rw [← hreader]; rfl
  rw [hself, Prod.mk.injEq] at hsame
  obtain ⟨rfl, rfl⟩ := hsame
  rw [hreader]
  exact .inr ⟨[], .refl _, fun _ => h⟩

/-- Scanning depends only on the lines that it loads. -/
theorem local_scan (s : TokenStream) : Local TokenStream.scan s := by
  intro x s' h
  unfold TokenStream.scan at h
  rcases hskip : Trivia.skip s.reader with ⟨e | ⟨⟩, r⟩
  · simp only [hskip, Prod.mk.injEq] at h
    exact .inl ⟨_, h.1.symm, e, rfl⟩
  · simp only [hskip, Prod.mk.injEq] at h
    obtain ⟨rfl, rfl⟩ := h
    obtain ⟨lines, hloads, hsame⟩ := Reader.composes_local.skip s.reader _ r hskip
    rcases Reader.localToken_readToken r _ _ rfl with hfails | ⟨lines', hloads', hsame'⟩
    · exact .inl hfails
    refine .inr ⟨lines ++ lines', hloads.trans hloads', fun hmore ahead => ?_⟩
    have hfirst := hsame (hloads'.ahead_ne hmore) (.prepend lines' ahead)
    unfold TokenStream.scan TokenStream.facing
    simp only [Source.prepend_append, hfirst, hsame' hmore ahead]
    rfl

/-- Taking a token depends only on the lines that it loads. -/
theorem local_next (s : TokenStream) : Local next s := by
  cases hpeeked : s.peeked with
  | some t =>
    refine .of_stays (.ok t) { s with peeked := none } rfl fun ahead => ?_
    exact TokenStream.next_of_peeked (s := s.facing ahead) hpeeked
  | none =>
    have hscan : ∀ ahead, next (s.facing ahead) = (s.facing ahead).scan :=
      fun ahead => TokenStream.next_of_none (s := s.facing ahead) hpeeked
    intro x s' h
    rcases local_scan s x s' ((hscan s.reader.ahead).symm.trans h) with
      hfails | ⟨lines, hloads, hsame⟩
    · exact .inl hfails
    · exact .inr ⟨lines, hloads, fun hmore ahead => (hscan _).trans (hsame hmore ahead)⟩

/-- Looking at a token depends only on the lines that it loads. -/
theorem local_peek (s : TokenStream) : Local peek s := by
  cases hpeeked : s.peeked with
  | some t =>
    refine .of_stays (.ok t) s rfl fun ahead => ?_
    exact TokenStream.peek_of_peeked (s := s.facing ahead) hpeeked
  | none =>
    rcases hscan : s.scan with ⟨d | t, q⟩
    · intro x s' h
      obtain ⟨rfl, rfl⟩ := Prod.mk.inj ((TokenStream.peek_of_scan_error hpeeked hscan).symm.trans h)
      rcases local_scan s _ _ hscan with hfails | ⟨lines, hloads, hsame⟩
      · exact .inl hfails
      · refine .inr ⟨lines, hloads, fun hmore ahead => ?_⟩
        exact TokenStream.peek_of_scan_error (s := s.facing (.prepend lines ahead)) hpeeked
          (hsame hmore ahead)
    · intro x s' h
      obtain ⟨rfl, rfl⟩ := Prod.mk.inj ((TokenStream.peek_of_scan hpeeked hscan).symm.trans h)
      obtain ⟨lines, hloads, hsame⟩ := (local_scan s _ _ hscan).resolve_left (by simp)
      refine .inr ⟨lines, hloads, fun hmore ahead => ?_⟩
      exact TokenStream.peek_of_scan (s := s.facing (.prepend lines ahead)) hpeeked
        (hsame hmore ahead)

/-- Every reading that is put together from taking tokens and looking at them depends only on the
lines that it loads. -/
theorem composes_local : Composes @Local where
  pure a s := .of_stays (.ok a) s rfl fun _ => rfl
  fail d s := .of_stays (.error d) s rfl fun _ => rfl
  next := local_next
  peek := local_peek
  bind {α β m f s} hm hf := by
    intro x s'' h
    rcases hms : m s with ⟨d | a, s'⟩
    · rw [bind_of_error hms, Prod.mk.injEq] at h
      obtain ⟨rfl, rfl⟩ := h
      rcases hm _ _ hms with ⟨d', hd', hfails⟩ | ⟨lines, hloads, hsame⟩
      · exact .inl ⟨d', by rw [Except.error.inj hd'], hfails⟩
      · exact .inr ⟨lines, hloads, fun hmore ahead => bind_of_error (hsame hmore ahead) f⟩
    · rw [bind_of_ok hms] at h
      obtain ⟨lines, hloads, hsame⟩ := (hm _ _ hms).resolve_left (by simp)
      rcases hf a s' hms x s'' h with hfails | ⟨lines', hloads', hsame'⟩
      · exact .inl hfails
      refine .inr ⟨lines ++ lines', hloads.trans hloads', fun hmore ahead => ?_⟩
      have hfirst := hsame (hloads'.ahead_ne hmore) (.prepend lines' ahead)
      rw [Source.prepend_append, bind_of_ok hfirst, hsame' hmore ahead]

end Reading

end CommandTree
