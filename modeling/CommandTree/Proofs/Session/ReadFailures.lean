import CommandTree.Proofs.Session.Calls

/-!
# Where a stream keeps its promises

A stream promises that looking again finds the same, and that no token comes behind a failure to
read on. Both hold exactly if failures last. A read failure lasts if nothing is left behind it. A
line that is not text is dropped when it is met, though, and the lines behind it are scanned by the
next call; and where the medium fails in the middle of a line, the next call scans the part of the
line in front of the failure. Such failures do not last, so a stream keeps its promises only if the
source has nothing behind a failure, or if an unknown character stops the stream before that.
-/

set_option autoImplicit false

namespace CommandTree

/-- Where no line is left, what is pending is passed before the medium fails once more. So if it
fails at the same place, nothing is pending. -/
theorem Reader.pending_eq_nil_of_same_offset {r p q : Reader} {lines : List Line}
    {e : ReadFailure} (hahead : r.ahead.lines = []) (hloads : r.LoadsTo p lines)
    (hfill : p.fill = (.error e, q)) (hoffset : q.offset = r.offset) : r.pending = [] := by
  rw [hloads.ahead_eq] at hahead
  obtain ⟨rfl, hlines⟩ := List.append_eq_nil_iff.mp hahead
  obtain ⟨hpending, ⟨_, _, -, hundecodable, -⟩ | ⟨_, _, -, -, rfl⟩⟩ := fill_eq_error hfill
  · simp [hundecodable] at hlines
  · have hpassed := hloads.offset_eq
    have hsame : p.offset = r.offset := hoffset
    apply Bytes.count_eq_zero.mp
    simp only [hpending, hsame, List.flatMap_nil, Bytes.count_nil] at hpassed
    omega

namespace TokenStream

open Call (after)

variable {s : TokenStream} {d : Diagnostic}

/-- Looking again finds the same, and behind a read failure no call finds a token. -/
structure KeepsPromises (s : TokenStream) : Prop where
  /-- Whatever was called, looking twice finds the same. -/
  look_again : ∀ calls, (after s calls).peek.2.peek.1 = (after s calls).peek.1
  /-- Whatever was called, no call behind a read failure returns a token. -/
  no_token : ∀ calls (call : Call) d, (call.run (after s calls)).1 = .error d → d.IsReadFailure →
    ∀ later (call' : Call) t, (call'.run (after s (calls ++ call :: later))).1 ≠ .ok (some t)

/-- Behind some tokens the results are those that came behind them. -/
theorem result_after_replicate (s : TokenStream) (n k : Nat) :
    (after s (List.replicate n .next)).result k = s.result (n + k) := by
  induction n generalizing s with
  | zero => rw [Nat.zero_add]; rfl
  | succ n ih =>
    rw [Nat.succ_add]
    exact ih s.next.2

/-- A stream keeps its promises exactly if its failures last. -/
theorem keepsPromises_iff_lasting : s.KeepsPromises ↔ s.Lasting := by
  constructor
  · intro h k d hk
    have hagain := h.look_again (List.replicate k .next)
    have hfirst := result_after_replicate s k 0
    have hsecond := result_after_replicate s k 1
    generalize after s (List.replicate k .next) = q at hagain hfirst hsecond
    have hnext : q.next.1 = .error d := hfirst.trans hk
    rw [peek_fst, peek_fst, peek_snd_of_error hnext, hnext] at hagain
    rw [← hsecond]
    exact hagain
  · intro h
    constructor
    · intro calls
      have hlasting := h.of_reaches (Call.reaches_after s calls)
      rw [peek_fst, peek_fst]
      exact congrFun hlasting.result_peek 0
    · intro calls call d hd _ later call' t
      have hlasting := h.of_reaches (Call.reaches_after s calls)
      rw [Call.run_fst, Call.returns_eq_error_iff] at hd
      have hfirst : (after s calls).result 0 = .error d := hd
      have hfails : (call'.run (after s (calls ++ call :: later))).1 = .error d := by
        rw [Call.after_append, Call.run_after hlasting, Call.returns_eq_error_iff,
          ← Nat.zero_add (List.length _), hlasting.result_of_error hfirst]
      simp [hfails]

/-! ## Which failures last -/

/-- A failure to read on arises where the reader could not be filled. -/
theorem exists_fill_of_next_error (h : s.next.1 = .error d) (hd : d.IsReadFailure) :
    ∃ e p lines, d = .atSpan (.unreadable e) s.next.2.reader.here ∧ s.reader.LoadsTo p lines ∧
      p.fill = (.error e, s.next.2.reader) := by
  have hcomes := s.comes_scan
  rw [(scan_of_next_error h).2] at hcomes
  rcases hcomes with ⟨hother, -⟩ | ⟨e, p, lines, hx, hloads, hfill⟩
  · exact absurd hd (hother d rfl)
  · exact ⟨e, p, lines, Except.error.inj hx, hloads, hfill⟩

/-- Lines that are not text are dropped one by one, so they are used up at some time. -/
theorem not_forever_notUtf8 (s : TokenStream) :
    ¬ ∀ k, ∃ span, s.result k = .error (.atSpan (.unreadable .notUtf8) span) := by
  intro h
  obtain ⟨span, hnext⟩ := h 0
  obtain ⟨e, p, lines, hd, hloads, hfill⟩ := exists_fill_of_next_error hnext ⟨_, rfl⟩
  have hlines : s.next.2.reader.ahead.lines.length < s.reader.ahead.lines.length := by
    rw [hloads.ahead_eq]
    obtain ⟨-, ⟨rest, ending, -, hahead, heq⟩ | ⟨_, _, rfl, -⟩⟩ := Reader.fill_eq_error hfill
    · rw [heq, hahead]
      simp only [Source.prepend, List.length_append, List.length_cons]
      omega
    · exact absurd (congrArg Diagnostic.problem hd) (by simp [Diagnostic.atSpan, Diagnostic.onLine])
  exact not_forever_notUtf8 s.next.2 fun k => h (k + 1)
termination_by s.reader.ahead.lines.length

/-- A read failure that lasts has nothing behind it. -/
theorem clean_of_lasting (hlasting : s.Lasting) (h : s.next.1 = .error d)
    (hd : d.IsReadFailure) : s.reader.ahead.Clean := by
  have hagain : ∀ k, s.result k = .error d := by
    intro k
    have hfirst : s.result 0 = .error d := h
    rw [← Nat.zero_add k, hlasting.result_of_error hfirst]
  obtain ⟨e, p, lines, hx, hloads, hfill⟩ := exists_fill_of_next_error h hd
  rw [hloads.clean_iff]
  obtain ⟨-, ⟨_, _, rfl, -, -⟩ | ⟨remainder, message, rfl, hahead, heq⟩⟩ :=
    Reader.fill_eq_error hfill
  · exact absurd (fun k => ⟨_, hx ▸ hagain k⟩) (not_forever_notUtf8 s)
  · -- the second failure is at the same place, so nothing was passed in between
    obtain ⟨e', p', lines', hx', hloads', hfill'⟩ := exists_fill_of_next_error (hagain 1) hd
    have hoffset : s.next.2.next.2.reader.offset = s.next.2.reader.offset := by
      have hspan := congrArg Diagnostic.span (hx.symm.trans hx')
      simp only [Diagnostic.atSpan, Diagnostic.onLine, Option.some.injEq, Reader.here,
        Span.point, Span.mk.injEq] at hspan
      exact hspan.1.symm
    have hpending : s.next.2.reader.pending = [] := by
      apply Reader.pending_eq_nil_of_same_offset _ hloads' hfill' hoffset
      rw [heq]
    rw [heq] at hpending
    refine ⟨by simp [hahead], ?_⟩
    intro remainder' message' hfailure
    rw [hahead, Ending.failure.injEq] at hfailure
    rw [← hfailure.1]
    exact hpending

/-! ## Which streams keep their promises -/

/-- A stream that an unknown character stops stays in front of it. -/
theorem lasting_of_stopped (hnone : s.peeked = none) (h : s.tokens.2 = .error d)
    (hd : ¬ d.IsReadFailure) : s.Lasting := by
  refine .of_stays (P := fun s => s.peeked = none ∧ s.tokens.2 = .error d) ?_ ?_ ⟨hnone, h⟩
  · rintro s ⟨hnone, h⟩
    refine ⟨peeked_next s, ?_⟩
    rcases hnext : s.next with ⟨d' | t, s'⟩
    · rw [tokens_of_error hnext, Except.error.injEq] at h
      obtain rfl := h
      have hscan := (next_of_none hnone).symm.trans hnext
      have hagain := (next_of_none (peeked_of_scan hnone hscan)).trans (scan_unknown hscan hd)
      rw [tokens_of_error hagain]
    · by_cases ht : t.value = .endOfInput
      · simp [tokens_of_end hnext ht] at h
      · rwa [tokens_of_next hnext ht] at h
  · rintro s d' s' ⟨hnone, h⟩ hscan
    rw [tokens_of_error ((next_of_none hnone).trans hscan), Except.error.injEq] at h
    exact scan_unknown hscan (h ▸ hd)

/-- In front of the end of input there is nothing that cannot be read. -/
theorem clean_of_scan_end {s' : TokenStream} {t : Located Token} (h : s.scan = (.ok t, s'))
    (ht : t.value = .endOfInput) : s.reader.ahead.Clean := by
  obtain ⟨lines, hloads⟩ := exists_loadsTo_of_scan h
  rw [hloads.clean_iff, (atEnd_of_scan h ht).ahead_eq]
  exact ⟨by simp, nofun⟩

/-- If failures last, what ends the tokens is an unknown character, or the source is clean up to the
place that they end at, and has nothing behind it. -/
theorem clean_or_stopped (hlasting : s.Lasting) (hnone : s.peeked = none) :
    s.reader.ahead.Clean ∨ ∃ d, s.tokens.2 = .error d ∧ ¬ d.IsReadFailure := by
  fun_induction tokens s with
  | case1 s d s' hnext =>
    by_cases hd : d.IsReadFailure
    · exact .inl (clean_of_lasting hlasting (by rw [hnext]) hd)
    · exact .inr ⟨d, rfl, hd⟩
  | case2 s t s' hnext ht =>
    exact .inl (clean_of_scan_end ((next_of_none hnone).symm.trans hnext) ht)
  | case3 s t s' hnext ht ih =>
    have hscan := (next_of_none hnone).symm.trans hnext
    have hlasting' : s'.Lasting := by simpa [hnext] using hlasting.next
    obtain ⟨lines, hloads⟩ := exists_loadsTo_of_scan hscan
    rw [hloads.clean_iff]
    exact ih hlasting' (peeked_of_scan hnone hscan)

/-- A stream keeps its promises exactly if no failure of the source has anything behind it, or if an
unknown character stops the stream before it comes to one. -/
theorem keepsPromises_iff (source : Source) :
    (ofSource source).KeepsPromises ↔
      source.Clean ∨ ∃ d, (ofSource source).tokens.2 = .error d ∧ ¬ d.IsReadFailure := by
  rw [keepsPromises_iff_lasting]
  constructor
  · intro hlasting
    exact clean_or_stopped hlasting rfl
  · rintro (hclean | ⟨d, htokens, hd⟩)
    · exact lasting_of_clean hclean
    · exact lasting_of_stopped rfl htokens hd

/-- Behind a line that is not text, the next line is handed out. -/
theorem breaks_promises_undecodable_line :
    ¬ (ofSource (.ofBytes [0xff, 0x0a, 0x78, 0x0a] none)).KeepsPromises := by
  intro h
  have hagain := h.look_again []
  have hdiffer :
      (ofSource (.ofBytes [0xff, 0x0a, 0x78, 0x0a] none)).peek.1.isOk = false ∧
        (ofSource (.ofBytes [0xff, 0x0a, 0x78, 0x0a] none)).peek.2.peek.1.isOk = true := by
    decide +kernel
  rw [Call.after] at hagain
  rw [hagain, hdiffer.1] at hdiffer
  simp at hdiffer

end TokenStream

end CommandTree
