import CommandTree.Proofs.Stream.EndOfInput
import CommandTree.Proofs.Steps.Locality

/-!
# What a stream does again and again

A stream that stands at the end of input, or in front of a character that starts no token, stays
there: scanning leads back to the same place with the same result. A failure to read on is
different. It arises where a line should be loaded and the attempt fails, and the next scan goes on
with whatever the source has behind that. Only if nothing is left there is the failure repeated;
`Source.Clean` says that this is so for every failure of a source.

The line of a stream is the line of the token that was scanned last.
-/

set_option autoImplicit false

namespace CommandTree

/-! ## Sources with nothing behind a failure -/

/-- All lines are text, and where the medium fails nothing is left over of a line. -/
structure Source.Clean (source : Source) : Prop where
  /-- Each line is text. -/
  text : Line.undecodable ∉ source.lines
  /-- Nothing is left over. -/
  remainder_eq : ∀ remainder message, source.ending = .failure remainder message → remainder = []

/-- All lines of a text are text. -/
theorem Source.undecodable_notMem_ofChars (cs : List Char) :
    Line.undecodable ∉ (ofChars cs).lines := by
  rw [ofChars_eq]
  intro hmem
  obtain ⟨line, hline, hundecodable⟩ := List.mem_map.mp hmem
  obtain ⟨c, others, rfl⟩ := List.exists_cons_of_ne_nil (of_mem_textLines hline).1
  contradiction

/-- A text is not damaged. -/
theorem Source.clean_ofString (text : String) : (Source.ofString text).Clean :=
  ⟨undecodable_notMem_ofChars text.toList, nofun⟩

namespace Reader

variable {α β : Type} {r p q : Reader} {lines : List Line} {e : ReadFailure}

/-- Making the next character available again changes nothing. -/
theorem fill_idem (h : r.fill = (.ok (), q)) : q.fill = (.ok (), q) := by
  cases hp : q.pending with
  | nil =>
    have hend := AtEnd.of_fill h hp
    simp [fill, hp, hend.ahead_eq]
  | cons c rest => simp [fill, hp]

/-- Loading lines of text does not damage what is ahead, nor mend it. -/
theorem LoadsTo.clean_iff (h : r.LoadsTo q lines) : r.ahead.Clean ↔ q.ahead.Clean := by
  rw [h.ahead_eq, Source.prepend]
  constructor
  · intro hclean
    exact ⟨fun hmem => hclean.text (List.mem_append_right _ hmem), hclean.remainder_eq⟩
  · intro hclean
    refine ⟨fun hmem => ?_, hclean.remainder_eq⟩
    exact (List.mem_append.mp hmem).elim h.text hclean.text

/-- A reader that cannot be filled either drops a line that is not text, or gets the rest of a line
in front of the failure of the medium. -/
theorem fill_eq_error (h : r.fill = (.error e, q)) :
    r.pending = [] ∧
      ((∃ lines ending, e = .notUtf8 ∧ r.ahead = ⟨.undecodable :: lines, ending⟩ ∧
        q = { r with ahead := ⟨lines, ending⟩ }) ∨
      ∃ remainder message, e = .medium message ∧ r.ahead = ⟨[], .failure remainder message⟩ ∧
        q = { r with pending := remainder, ahead := ⟨[], .failure [] message⟩ }) := by
  unfold fill at h
  split at h
  · simp at h
  · simp at h
  · rename_i lines ending hpending hahead
    obtain ⟨he, rfl⟩ := Prod.mk.inj h
    exact ⟨hpending, .inl ⟨lines, ending, (Except.error.inj he).symm, hahead, rfl⟩⟩
  · simp at h
  · rename_i remainder message hpending hahead
    obtain ⟨he, rfl⟩ := Prod.mk.inj h
    exact ⟨hpending, .inr ⟨remainder, message, (Except.error.inj he).symm, hahead, rfl⟩⟩

/-- Where nothing is left behind a failure, a reader that cannot be filled stays so. -/
theorem fill_error_of_clean (hclean : r.ahead.Clean) (h : r.fill = (.error e, q)) :
    q.fill = (.error e, q) ∧ q.ahead.Clean := by
  obtain ⟨-, ⟨lines, ending, -, hahead, -⟩ | ⟨remainder, message, rfl, hahead, rfl⟩⟩ :=
    fill_eq_error h
  · exact absurd hclean.text (by simp [hahead])
  · obtain rfl := hclean.remainder_eq remainder message (by rw [hahead])
    exact ⟨rfl, hahead ▸ hclean⟩

/-- A step either succeeds, or it fails because at some place the reader could not be filled. On the
way there it loads lines of text. -/
def Goes (m : Step α) (r : Reader) : Prop :=
  (∃ a q lines, m r = (.ok a, q) ∧ r.LoadsTo q lines) ∨
    ∃ e q p lines, m r = (.error e, q) ∧ r.LoadsTo p lines ∧ p.fill = (.error e, q)

/-- Every step that is put together from looking and passing succeeds or meets a failure to read. -/
theorem composes_goes : Composes @Goes where
  done a r := .inl ⟨a, r, [], rfl, .refl r⟩
  look r := by
    rcases hfill : r.fill with ⟨e | ⟨⟩, q⟩
    · exact .inr ⟨e, q, r, [], Step.look_of_error hfill, .refl r, hfill⟩
    · obtain ⟨lines, hloads, -⟩ := local_look r _ q (Step.look_of_ok hfill)
      exact .inl ⟨_, q, lines, Step.look_of_ok hfill, hloads⟩
  pass r := .inl ⟨(), _, [], rfl, .advance r⟩
  andThen {α β m f r} hm hf := by
    rcases hm with ⟨a, q, lines, hok, hloads⟩ | ⟨e, q, p, lines, herror, hloads, hfill⟩
    · rcases hf a q hok with ⟨b, q', lines', hok', hloads'⟩ | ⟨e, q', p, lines', hrest⟩
      · refine .inl ⟨b, q', _, ?_, hloads.trans hloads'⟩
        rw [Step.andThen_of_ok hok, hok']
      · refine .inr ⟨e, q', p, _, ?_, hloads.trans hrest.2.1, hrest.2.2⟩
        rw [Step.andThen_of_ok hok, hrest.1]
    · exact .inr ⟨e, q, p, lines, Step.andThen_of_error herror f, hloads, hfill⟩

end Reader

/-! ## Trivia and tokens -/

/-- Behind trivia the next character is available and starts no trivia. -/
theorem Trivia.ends_of_skip {r q : Reader} (h : skip r = (.ok (), q)) :
    q.fill = (.ok (), q) ∧ Ends q.pending := by
  have hcomment := startsComment_of_skip h
  fun_induction skip r with
  | case1 r e q' hfill => simp at h
  | case2 r q' hfill hline e q'' hskip => simp at h
  | case3 r q' hfill hline q'' hskip ih => exact ih h
  | case4 r q' hfill hline hblock e q'' hskip => simp at h
  | case5 r q' hfill hline hblock q'' hskip ih => exact ih h
  | case6 r q' hfill hline hblock hp =>
    obtain rfl := (Prod.mk.inj h).2
    exact ⟨Reader.fill_idem hfill, hcomment, by simp [hp]⟩
  | case7 r q' hfill hline hblock c rest hp hblank ih => exact ih h
  | case8 r q' hfill hline hblock c rest hp hblank =>
    obtain rfl := (Prod.mk.inj h).2
    exact ⟨Reader.fill_idem hfill, hcomment, by simpa [hp] using hblank⟩

/-- Behind trivia there is nothing to skip. -/
theorem Trivia.skip_idem {r q : Reader} (h : skip r = (.ok (), q)) : skip q = (.ok (), q) :=
  skip_of_ends (ends_of_skip h).1 (ends_of_skip h).2

namespace Reader

variable {r q : Reader} {d : Diagnostic} {t : Located Token}

/-- What reading a token comes to: lines are loaded, and then there is a result, which is no read
failure, or the reader could not be filled. -/
def Comes (r : Reader) (x : Except Diagnostic (Located Token)) (q : Reader) : Prop :=
  ((∀ d, x = .error d → ¬ d.IsReadFailure) ∧ ∃ lines, r.LoadsTo q lines) ∨
    ∃ e p lines, x = .error (.atSpan (.unreadable e) q.here) ∧ r.LoadsTo p lines ∧
      p.fill = (.error e, q)

/-- A result behind lines of text is one that reading a token comes to. -/
theorem Comes.of_ok {lines : List Line} (h : r.LoadsTo q lines) : r.Comes (.ok t) q :=
  .inl ⟨fun _ hd => absurd hd (by simp), lines, h⟩

/-- Reading a token loads lines of text, and then has a result or meets a failure to read. -/
theorem comes_readToken (r : Reader) : r.Comes r.readToken.1 r.readToken.2 := by
  obtain ⟨m, hm, heq⟩ := r.exists_readsToken
  rw [heq r rfl]
  cases hm with
  | endOfInput => exact .of_ok (.refl r)
  | structural token => exact .of_ok (.advance r)
  | word m hm =>
    show r.Comes (r.locateWord (m r)).1 (r.locateWord (m r)).2
    rcases hm composes_goes with ⟨cs, q, lines, hok, hloads⟩ | ⟨e, q, p, lines, herror, hrest⟩
    · rw [hok]
      exact .of_ok hloads
    · rw [herror]
      exact .inr ⟨e, p, lines, rfl, hrest⟩
  | unknown c =>
    refine .inl ⟨?_, [], .refl r⟩
    rintro d hd ⟨e, he⟩
    rw [← Except.error.inj hd] at he
    contradiction

/-- A token is on the line where it starts. -/
theorem line_of_readToken (h : r.readToken = (.ok t, q)) : t.span.line = r.line := by
  obtain ⟨m, hm, heq⟩ := r.exists_readsToken
  rw [heq r rfl] at h
  cases hm with
  | endOfInput =>
    obtain rfl := Except.ok.inj (Prod.mk.inj h).1
    rfl
  | structural token =>
    obtain rfl := Except.ok.inj (Prod.mk.inj h).1
    rfl
  | word m _ =>
    rcases hword : m r with ⟨e | cs, p⟩
    · simp [hword, locateWord] at h
    · simp only [hword, locateWord, Prod.mk.injEq, Except.ok.injEq] at h
      rw [← h.1]
  | unknown c => simp at h

/-- A character that starts no token stays pending. -/
theorem eq_of_readToken_error (h : r.readToken = (.error d, q)) (hd : ¬ d.IsReadFailure) :
    q = r := by
  obtain ⟨m, hm, heq⟩ := r.exists_readsToken
  rw [heq r rfl] at h
  cases hm with
  | endOfInput => simp at h
  | structural token => simp [readStructural] at h
  | word m _ =>
    rcases hword : m r with ⟨e | cs, p⟩
    · simp only [hword, locateWord, Prod.mk.injEq, Except.error.injEq] at h
      exact absurd ⟨e, by rw [← h.1]; rfl⟩ hd
    · simp [hword, locateWord] at h
  | unknown c => exact (Prod.mk.inj h).2.symm

end Reader

/-! ## Scanning -/

namespace TokenStream

variable {s s' : TokenStream} {t : Located Token} {d : Diagnostic}

/-- Scanning fails in the trivia, or reads the token behind it. -/
theorem scan_eq (s : TokenStream) :
    (∃ e r, Trivia.skip s.reader = (.error e, r) ∧
      s.scan = (.error (.atSpan (.unreadable e) r.here), { s with reader := r })) ∨
    ∃ r, Trivia.skip s.reader = (.ok (), r) ∧
      s.scan = (r.readToken.1, { s with reader := r.readToken.2, line := r.line }) := by
  unfold scan
  rcases hskip : Trivia.skip s.reader with ⟨e | ⟨⟩, r⟩
  · exact .inl ⟨e, r, rfl, rfl⟩
  · exact .inr ⟨r, rfl, rfl⟩

/-- Scanning loads lines of text, and then has a result or meets a failure to read. -/
theorem comes_scan (s : TokenStream) : s.reader.Comes s.scan.1 s.scan.2.reader := by
  have hgoes := Reader.composes_goes.skip s.reader
  rcases s.scan_eq with ⟨e, r, hskip, hscan⟩ | ⟨r, hskip, hscan⟩
  · rw [hscan]
    rcases hgoes with ⟨_, _, _, hok, -⟩ | ⟨e', q, p, lines, herror, hloads, hfill⟩
    · simp [hskip] at hok
    · rw [hskip, Prod.mk.injEq, Except.error.injEq] at herror
      obtain ⟨rfl, rfl⟩ := herror
      exact .inr ⟨e, p, lines, rfl, hloads, hfill⟩
  · rw [hscan]
    rcases hgoes with ⟨_, q, lines, hok, hloads⟩ | ⟨_, _, _, _, herror, -⟩
    · rw [hskip, Prod.mk.injEq] at hok
      obtain ⟨-, rfl⟩ := hok
      rcases r.comes_readToken with ⟨hd, lines', hloads'⟩ | ⟨e, p, lines', hx, hloads', hfill⟩
      · exact .inl ⟨hd, _, hloads.trans hloads'⟩
      · exact .inr ⟨e, p, _, hx, hloads.trans hloads', hfill⟩
    · simp [hskip] at herror

/-- Scanning a token loads lines of text only. -/
theorem exists_loadsTo_of_scan (h : s.scan = (.ok t, s')) :
    ∃ lines, s.reader.LoadsTo s'.reader lines := by
  have hcomes := s.comes_scan
  rw [h] at hcomes
  rcases hcomes with ⟨-, hloads⟩ | ⟨_, _, _, hx, -⟩
  · exact hloads
  · simp at hx

/-- Scanning that finds, behind trivia, what stays in place comes back to the same place. -/
theorem scan_of_stays {r : Reader} {x : Except Diagnostic (Located Token)}
    (hskip : Trivia.skip s.reader = (.ok (), r)) (htoken : r.readToken = (x, r)) :
    scan { s with reader := r, line := r.line } =
      (x, { s with reader := r, line := r.line }) := by
  have hagain := Trivia.skip_idem hskip
  simp only [scan, hagain, htoken]

/-- The end of input is found again. -/
theorem scan_end (h : s.scan = (.ok t, s')) (ht : t.value = .endOfInput) :
    s'.scan = (.ok t, s') := by
  rcases s.scan_eq with ⟨e, r, hskip, hscan⟩ | ⟨r, hskip, hscan⟩
  · simp [hscan] at h
  · rw [hscan, Prod.mk.injEq] at h
    obtain ⟨hx, rfl⟩ := h
    have htoken : r.readToken = (.ok t, r.readToken.2) := by rw [← hx]
    obtain ⟨-, hstays⟩ := Reader.eq_of_readToken_endOfInput htoken ht
    rw [hstays] at htoken ⊢
    exact scan_of_stays hskip htoken

/-- A character that starts no token is found again. -/
theorem scan_unknown (h : s.scan = (.error d, s')) (hd : ¬ d.IsReadFailure) :
    s'.scan = (.error d, s') := by
  rcases s.scan_eq with ⟨e, r, hskip, hscan⟩ | ⟨r, hskip, hscan⟩
  · rw [hscan, Prod.mk.injEq, Except.error.injEq] at h
    exact absurd ⟨e, by rw [← h.1]; rfl⟩ hd
  · rw [hscan, Prod.mk.injEq] at h
    obtain ⟨hx, rfl⟩ := h
    have htoken : r.readToken = (.error d, r.readToken.2) := by rw [← hx]
    have hstays := Reader.eq_of_readToken_error htoken hd
    rw [hstays] at htoken ⊢
    exact scan_of_stays hskip htoken

/-- Where nothing is left behind a failure, every failure is found again. -/
theorem scan_error (hclean : s.reader.ahead.Clean) (h : s.scan = (.error d, s')) :
    s'.scan = (.error d, s') := by
  by_cases hd : d.IsReadFailure
  · have hcomes := s.comes_scan
    rw [h] at hcomes
    rcases hcomes with ⟨hother, -⟩ | ⟨e, p, lines, hx, hloads, hfill⟩
    · exact absurd hd (hother d rfl)
    · obtain ⟨hagain, -⟩ := Reader.fill_error_of_clean (hloads.clean_iff.mp hclean) hfill
      rw [scan, Trivia.skip_of_error hagain]
      exact Prod.ext hx.symm rfl
  · exact scan_unknown h hd

/-- Scanning does not damage what is ahead. -/
theorem clean_scan (hclean : s.reader.ahead.Clean) : s.scan.2.reader.ahead.Clean := by
  rcases s.comes_scan with ⟨-, lines, hloads⟩ | ⟨e, p, lines, -, hloads, hfill⟩
  · exact hloads.clean_iff.mp hclean
  · exact (Reader.fill_error_of_clean (hloads.clean_iff.mp hclean) hfill).2

/-- The line of a stream is that of the token that was scanned last. -/
theorem line_of_scan (h : s.scan = (.ok t, s')) : s'.line = t.span.line := by
  rcases s.scan_eq with ⟨e, r, hskip, hscan⟩ | ⟨r, hskip, hscan⟩
  · simp [hscan] at h
  · rw [hscan, Prod.mk.injEq] at h
    obtain ⟨hx, rfl⟩ := h
    exact (Reader.line_of_readToken (Prod.ext hx rfl)).symm

end TokenStream

end CommandTree
