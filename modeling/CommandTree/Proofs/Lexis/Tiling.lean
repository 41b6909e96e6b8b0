import CommandTree.Proofs.Lexis.Scanning
import CommandTree.TokenStream.Tokens

/-!
# The tokens tile the source

The lexical grammar takes every text apart in one way, and that is the way a stream over the text
takes. One half is about texts alone: there is always trivia to split off, and behind it either
nothing, a token, or a character that starts none. The other half is about streams: in front of
trivia and a token a stream hands out that token. An induction on the tiling puts both together.
-/

set_option autoImplicit false

namespace CommandTree.Lexis

/-! ## Every text is tiled -/

/-- The first star and slash of a text, if there is one. -/
theorem exists_close (cs : List Char) :
    ¬ ['*', '/'] <:+: cs ∨
      ∃ body rest, cs = body ++ '*' :: '/' :: rest ∧ ¬ ['*', '/'] <:+: body := by
  induction cs with
  | nil => exact Or.inl (by simp)
  | cons c cs ih =>
    by_cases hclose : c = '*' ∧ cs.head? = some '/'
    · obtain ⟨rfl, hhead⟩ := hclose
      obtain ⟨rest, rfl⟩ := List.head?_eq_some_iff.mp hhead
      exact Or.inr ⟨[], rest, rfl, by simp⟩
    -- the two characters at the front of any text that looks like this one are no star and slash
    have hprefix : ∀ ds, (c :: cs).head? = ds.head? → ds.tail.head? = cs.head? →
        ¬ ['*', '/'] <+: ds := by
      rintro _ hc hcs ⟨t, rfl⟩
      exact hclose ⟨by simpa using hc, by simpa using hcs.symm⟩
    rcases ih with hno | ⟨body, rest, rfl, hbody⟩
    · refine Or.inl fun h => ?_
      rcases List.infix_cons_iff.mp h with h | h
      · exact hprefix _ rfl rfl h
      · exact hno h
    · refine Or.inr ⟨c :: body, rest, rfl, fun h => ?_⟩
      rcases List.infix_cons_iff.mp h with h | h
      · cases body with
        | nil => simpa using h.length_le
        | cons d body => exact hprefix (c :: d :: body) rfl rfl h
      · exact hbody h

/-- A text has no newline, or a first one. -/
theorem exists_newline (cs : List Char) :
    '\n' ∉ cs ∨ ∃ body rest, cs = body ++ '\n' :: rest ∧ '\n' ∉ body := by
  by_cases h : '\n' ∈ cs
  · exact Or.inr (List.eq_append_cons_of_mem h)
  · exact Or.inl h

/-- Every text starts with a stretch of trivia that nothing makes longer. -/
theorem exists_gap (text : List Char) :
    ∃ gap behind, text = gap ++ behind ∧ Gap gap behind ∧ Trivia.Ends behind := by
  have hend : Trivia.Ends [] := ⟨rfl, by simp⟩
  by_cases hline : Trivia.startsLineComment text = true
  · obtain ⟨cs, rfl⟩ := Trivia.exists_of_startsLineComment hline
    rcases exists_newline cs with hbody | ⟨body, rest, rfl, hbody⟩
    · exact ⟨_, [], (List.append_nil _).symm, .openLineComment hbody, hend⟩
    · obtain ⟨gap, behind, rfl, hgap, hends⟩ := exists_gap rest
      exact ⟨_, behind, by simp, .lineComment hbody hgap, hends⟩
  by_cases hblock : Trivia.startsBlockComment text = true
  · obtain ⟨cs, rfl⟩ := Trivia.exists_of_startsBlockComment hblock
    rcases exists_close cs with hbody | ⟨body, rest, rfl, hbody⟩
    · exact ⟨_, [], (List.append_nil _).symm, .openBlockComment hbody, hend⟩
    · obtain ⟨gap, behind, rfl, hgap, hends⟩ := exists_gap rest
      exact ⟨_, behind, by simp, .blockComment hbody hgap, hends⟩
  have hcomment : Trivia.startsComment text = false := by
    simp [Trivia.startsComment, hline, hblock]
  cases text with
  | nil => exact ⟨[], [], rfl, .nothing [], hend⟩
  | cons c cs =>
    by_cases hblank : Trivia.isBlank c = true
    · obtain ⟨gap, behind, rfl, hgap, hends⟩ := exists_gap cs
      exact ⟨c :: gap, behind, rfl, .blank hblank hgap, hends⟩
    · refine ⟨[], c :: cs, rfl, .nothing _, hcomment, fun d hd => ?_⟩
      obtain rfl : c = d := by simpa using hd
      simpa using hblank
termination_by text.length

/-- Every text starts with a stretch, maybe an empty one, that carries a word on as far as it can be
carried. -/
theorem exists_carried (cs : List Char) :
    ∃ slice behind, cs = slice ++ behind ∧
      (∀ tail, tail ≠ [] → tail <:+ slice → Word.continues (tail ++ behind) = true) ∧
      Word.continues behind = false := by
  induction cs with
  | nil => exact ⟨[], [], rfl, fun tail hne h => absurd (List.suffix_nil.mp h) hne, rfl⟩
  | cons c cs ih =>
    by_cases hc : Word.continues (c :: cs) = true
    · obtain ⟨slice, behind, rfl, hcarries, hstops⟩ := ih
      refine ⟨c :: slice, behind, rfl, fun tail hne h => ?_, hstops⟩
      rcases List.suffix_cons_iff.mp h with rfl | h
      · exact hc
      · exact hcarries tail hne h
    · refine ⟨[], c :: cs, rfl, fun tail hne h => absurd (List.suffix_nil.mp h) hne, ?_⟩
      simpa using hc

/-- Every text starts with the octal digits of an escape, maybe with none. -/
theorem exists_octalDigits (first : Nat) (cs : List Char) :
    ∃ others rest, cs = others ++ rest ∧ OctalDigits first others rest := by
  have go : ∀ (count : Nat) (cs : List Char), ∃ others rest, cs = others ++ rest ∧
      (∀ c ∈ others, (Quoted.octalDigit? c).isSome = true) ∧ others.length ≤ count ∧
      (others.length = count ∨ rest.head?.bind Quoted.octalDigit? = none) := by
    intro count
    induction count with
    | zero => exact fun cs => ⟨[], cs, rfl, by simp, Nat.le_refl _, Or.inl rfl⟩
    | succ count ih =>
      intro cs
      cases cs with
      | nil => exact ⟨[], [], rfl, by simp, Nat.zero_le _, Or.inr rfl⟩
      | cons c cs =>
        by_cases hc : (Quoted.octalDigit? c).isSome = true
        · obtain ⟨others, rest, rfl, hdigits, hle, hmax⟩ := ih cs
          refine ⟨c :: others, rest, rfl, ?_, Nat.succ_le_succ hle, ?_⟩
          · exact List.forall_mem_cons.mpr ⟨hc, hdigits⟩
          · exact hmax.imp_left (congrArg Nat.succ)
        · exact ⟨[], c :: cs, rfl, by simp, Nat.zero_le _, Or.inr (by simpa using hc)⟩
  obtain ⟨others, rest, heq, hdigits, hle, hmax⟩ := go (Quoted.octalDigitsAfter first) cs
  exact ⟨others, rest, heq, hdigits, hle, hmax⟩

/-- Every text starts with the body of a quoted word and with what closes it. -/
theorem exists_spells (cs : List Char) :
    ∃ body text closing behind, cs = body ++ closing ++ behind ∧ Spells body text ∧
      Closes closing behind := by
  cases cs with
  | nil => exact ⟨[], [], [], [], rfl, .nil, .atEnd⟩
  | cons c cs =>
    by_cases hquote : c = '"'
    · exact ⟨[], [], ['"'], cs, by simp [hquote], .nil, .quote cs⟩
    by_cases hline : Quoted.isLineEnd c = true
    · exact ⟨[], [], [], c :: cs, rfl, .nil, .lineEnd cs hline⟩
    by_cases hslash : c = '\\'
    · subst hslash
      cases cs with
      | nil => exact ⟨[], [], ['\\'], [], rfl, .nil, .backslashAtEnd⟩
      | cons d cs =>
        cases hd : Quoted.octalDigit? d with
        | none =>
          obtain ⟨body, text, closing, behind, rfl, hbody, hclosing⟩ := exists_spells cs
          exact ⟨_, _, closing, behind, by simp, .escape hd hbody, hclosing⟩
        | some first =>
          obtain ⟨others, rest, rfl, hothers⟩ := exists_octalDigits first cs
          obtain ⟨body, text, closing, behind, rfl, hbody, hclosing⟩ := exists_spells rest
          refine ⟨'\\' :: d :: (others ++ body), _, closing, behind, by simp, .octal hd ?_ hbody,
            hclosing⟩
          -- the digits were cut off in front of `rest`, but have to be maximal in front of `body`
          refine ⟨hothers.digits, hothers.length_le, hothers.maximal.imp_right fun hnone => ?_⟩
          cases body with
          | nil => rfl
          | cons e body => exact hnone
    · obtain ⟨body, text, closing, behind, rfl, hbody, hclosing⟩ := exists_spells cs
      exact ⟨_, _, closing, behind, by simp, .plain hquote hslash (by simpa using hline) hbody,
        hclosing⟩
termination_by cs.length

/-- A text that starts with the first character of a token starts with a token. -/
theorem exists_lexeme {c : Char} {cs : List Char} (hends : Trivia.Ends (c :: cs))
    (hc : startsToken c = true) :
    ∃ slice behind value, c :: cs = slice ++ behind ∧ slice ≠ [] ∧
      Lexeme slice behind value := by
  simp only [startsToken, Bool.or_eq_true, beq_iff_eq] at hc
  rcases hc with (((rfl | rfl) | rfl) | rfl) | hword
  · exact ⟨['{'], cs, _, rfl, by simp, .openScope cs⟩
  · exact ⟨['}'], cs, _, rfl, by simp, .closeScope cs⟩
  · exact ⟨[';'], cs, _, rfl, by simp, .terminator cs⟩
  · obtain ⟨body, text, closing, behind, rfl, hbody, hclosing⟩ := exists_spells cs
    exact ⟨_, behind, _, by simp, by simp, .quoted hbody hclosing⟩
  · obtain ⟨slice, behind, heq, hcarries, hstops⟩ := exists_carried (c :: cs)
    have hcontinues : Word.continues (c :: cs) = true := by
      simp [Word.continues, hword, hends.noComment]
    have hne : slice ≠ [] := by
      rintro rfl
      rw [heq, List.nil_append, hstops] at hcontinues
      exact absurd hcontinues (by simp)
    refine ⟨slice, behind, _, heq, hne,
      .bare ⟨hne, fun d hd => ?_, fun tail hne htail => ?_, hstops⟩⟩
    · obtain ⟨front, back, rfl⟩ := List.append_of_mem hd
      have := hcarries (d :: back) (by simp) ⟨front, rfl⟩
      simp only [Word.continues, List.cons_append, List.head?_cons, Option.any_some,
        Bool.and_eq_true] at this
      exact this.1
    · have := hcarries tail hne htail
      simp only [Word.continues, Bool.and_eq_true, Bool.not_eq_true'] at this
      exact this.2

/-- Every text is made up of trivia and tokens, up to what ends it. -/
theorem exists_tiles (before text : List Char) :
    ∃ tokens ending, Tiles before text tokens ending := by
  obtain ⟨gap, rest, htext, hgap, hends⟩ := exists_gap text
  cases rest with
  | nil =>
    rw [htext, List.append_nil]
    exact ⟨[], _, .done hgap⟩
  | cons c cs =>
    by_cases hc : startsToken c = true
    · obtain ⟨slice, behind, value, heq, hne, hlexeme⟩ := exists_lexeme hends hc
      have hlt : behind.length < text.length := by
        have hpos := List.length_pos_iff.mpr hne
        rw [htext, heq]
        simp only [List.length_append]
        omega
      obtain ⟨tokens, ending, htiles⟩ := exists_tiles (before ++ gap ++ slice) behind
      rw [htext, heq]
      exact ⟨_, ending, .token (heq ▸ hgap) hlexeme htiles⟩
    · rw [htext]
      exact ⟨[], _, .failed hgap (hends.noBlank c rfl) (by simpa using hc)⟩
termination_by text.length

end CommandTree.Lexis

namespace CommandTree

/-! ## Streams take texts apart as they are tiled -/

/-- The stream stands in an undamaged text, behind `before` and in front of `behind`, and no token
was looked at. -/
structure TokenStream.Stands (s : TokenStream) (before behind : List Char) : Prop where
  /-- No token was looked at. -/
  peeked_eq : s.peeked = none
  /-- The reader stands there. -/
  reader : s.reader.Stands before behind

namespace TokenStream

open Lexis

variable {s : TokenStream} {before gap behind : List Char}

/-- A reader over a text stands in front of all of it. -/
theorem stands_ofString (text : String) :
    (ofSource (Source.ofString text)).Stands [] text.toList :=
  ⟨rfl, Reader.stands_ofSource text.toList⟩

/-- What is read behind the trivia is the next token of the stream. -/
theorem Stands.next_eq {r r' : Reader} {x : Except Diagnostic (Located Token)}
    (h : s.Stands before behind) (hskip : Trivia.skip s.reader = (.ok (), r))
    (htoken : r.readToken = (x, r')) : s.next = (x, ⟨r', none, r.line⟩) := by
  simp only [next, h.peeked_eq, scan, hskip, htoken]

/-- In front of trivia and a token the stream hands out that token and stops behind it. -/
theorem Stands.next_token {slice : List Char} {value : Token}
    (hgap : Gap gap (slice ++ behind)) (hlexeme : Lexeme slice behind value)
    (h : s.Stands before (gap ++ (slice ++ behind))) :
    ∃ s', s.next = (.ok ⟨value, spanAt (before ++ gap) slice⟩, s') ∧
      s'.Stands (before ++ gap ++ slice) behind := by
  obtain ⟨r, hskip, hr⟩ := Trivia.skip_of_gap hgap hlexeme.ends h.reader
  obtain ⟨r', htoken, hr'⟩ := readToken_of_lexeme hlexeme hr
  exact ⟨_, h.next_eq hskip htoken, rfl, hr'⟩

/-- In front of trivia and nothing else the next token is the end of input. -/
theorem Stands.next_end (hgap : Gap gap []) (h : s.Stands before gap) :
    ∃ s', s.next = (.ok ⟨.endOfInput, spanAt (before ++ gap) []⟩, s') ∧
      s'.Stands (before ++ gap) [] := by
  have hreader := h.reader
  rw [← List.append_nil gap] at hreader
  obtain ⟨r, hskip, hr⟩ := Trivia.skip_of_gap hgap ⟨rfl, by simp⟩ hreader
  exact ⟨_, h.next_eq hskip (readToken_of_nil hr), rfl, hr.toStands⟩

/-- In front of trivia and a character that starts no token, that character is reported. -/
theorem Stands.next_unknown {c : Char} (hgap : Gap gap (c :: behind))
    (hblank : Trivia.isBlank c = false) (hc : startsToken c = false)
    (h : s.Stands before (gap ++ c :: behind)) :
    ∃ s', s.next =
      (.error (.atSpan (.unknownCharacter c) (spanAt (before ++ gap) [c])), s') := by
  have hslash : c ≠ '/' := by
    rintro rfl
    exact absurd hc (by decide)
  have hends : Trivia.Ends (c :: behind) := by
    refine ⟨?_, fun d hd => ?_⟩
    · rw [Trivia.startsComment, Trivia.startsLineComment_cons, Trivia.startsBlockComment_cons,
        beq_eq_false_iff_ne.mpr hslash]
      rfl
    · obtain rfl : c = d := by simpa using hd
      exact hblank
  obtain ⟨r, hskip, hr⟩ := Trivia.skip_of_gap hgap hends h.reader
  exact ⟨_, h.next_eq hskip (readToken_of_unknown hc hr)⟩

/-- A stream over a text hands out the tokens of its tiling. -/
theorem tokens_of_tiles {tokens : List (Located Token)}
    {ending : Except Diagnostic (Located Token)} (htiles : Tiles before behind tokens ending)
    (h : s.Stands before behind) : s.tokens = (tokens, ending) := by
  induction htiles generalizing s with
  | done hgap =>
    obtain ⟨s', hnext, -⟩ := h.next_end hgap
    exact tokens_of_end hnext rfl
  | failed hgap hblank hc =>
    obtain ⟨s', hnext⟩ := h.next_unknown hgap hblank hc
    exact tokens_of_error hnext
  | @token before gap slice behind value tokens ending hgap hlexeme _ ih =>
    obtain ⟨s', hnext, hs'⟩ := h.next_token hgap hlexeme
    have hvalue : value ≠ .endOfInput := by cases hlexeme <;> simp
    rw [tokens_of_next hnext hvalue, ih hs']

end TokenStream

end CommandTree

namespace CommandTree.Lexis

/-! ## What a tiling says -/

variable {before behind : List Char} {tokens : List (Located Token)}
  {ending : Except Diagnostic (Located Token)}

/-- The offset behind the last of some tokens, which is `start` when there is none. -/
def lastStop (start : Nat) (tokens : List (Located Token)) : Nat :=
  tokens.foldl (fun _ t => t.span.stop) start

/-- The tokens of a text start behind what is in front of it. -/
theorem Tiles.start_le (h : Tiles before behind tokens ending) :
    ∀ t ∈ tokens, Bytes.count before ≤ t.span.start := by
  induction h with
  | done => simp
  | failed => simp
  | token _ _ _ ih =>
    refine List.forall_mem_cons.mpr ⟨by simp [spanAt], fun t ht => ?_⟩
    refine Nat.le_trans ?_ (ih t ht)
    simp only [Bytes.count_append]
    omega

/-- The tokens of a text stand one behind the other. -/
theorem Tiles.pairwise_span (h : Tiles before behind tokens ending) :
    (tokens.map Located.span).Pairwise fun a b => a.stop ≤ b.start := by
  induction h with
  | done => exact List.Pairwise.nil
  | failed => exact List.Pairwise.nil
  | token _ _ hrest ih =>
    refine List.pairwise_cons.mpr ⟨fun span hspan => ?_, ih⟩
    obtain ⟨t, ht, rfl⟩ := List.mem_map.mp hspan
    exact hrest.start_le t ht

/-- Every token of a tiling is cut out of the text where its span says. -/
theorem Tiles.exists_slice (h : Tiles before behind tokens ending) :
    ∀ t ∈ tokens, ∃ front slice back, before ++ behind = front ++ (slice ++ back) ∧
      t.span = spanAt front slice ∧ Lexeme slice back t.value := by
  induction h with
  | done => simp
  | failed => simp
  | @token before gap slice behind _ _ _ _ hlexeme _ ih =>
    refine List.forall_mem_cons.mpr ⟨?_, fun t ht => ?_⟩
    · exact ⟨before ++ gap, slice, behind, by simp, rfl, hlexeme⟩
    · obtain ⟨front, cut, back, heq, hspan, hcut⟩ := ih t ht
      exact ⟨front, cut, back, by simpa using heq, hspan, hcut⟩

/-- Behind its last token a tiling has no further token. -/
theorem Tiles.exists_last (h : Tiles before behind tokens ending) :
    ∃ middle rest, behind = middle ++ rest ∧
      Bytes.count (before ++ middle) = lastStop (Bytes.count before) tokens ∧
      Tiles (before ++ middle) rest [] ending := by
  induction h with
  | done hgap => exact ⟨[], _, rfl, by simp [lastStop], by simpa using Tiles.done hgap⟩
  | failed hgap hblank hc =>
    exact ⟨[], _, rfl, by simp [lastStop], by simpa using Tiles.failed hgap hblank hc⟩
  | @token before gap slice behind _ _ _ _ _ _ ih =>
    obtain ⟨middle, rest, rfl, hcount, htiles⟩ := ih
    refine ⟨gap ++ slice ++ middle, rest, by simp, ?_, by simpa using htiles⟩
    simpa [lastStop, spanAt] using hcount

/-- A text is tiled in one way only. -/
theorem Tiles.unique {tokens' : List (Located Token)}
    {ending' : Except Diagnostic (Located Token)} (h : Tiles before behind tokens ending)
    (h' : Tiles before behind tokens' ending') : tokens = tokens' ∧ ending = ending' := by
  -- both tilings are what one stream over the text hands out
  let s : TokenStream :=
    ⟨⟨[], Bytes.count before, 1 + before.count '\n', [], Source.ofChars behind⟩, none, 1⟩
  have hs : s.Stands before behind := ⟨rfl, rfl, rfl, behind, rfl, rfl, fun _ hne => absurd rfl hne⟩
  have heq := (TokenStream.tokens_of_tiles h hs).symm.trans (TokenStream.tokens_of_tiles h' hs)
  exact Prod.mk.inj heq

/-- A text is cut in one way only at a number of bytes. -/
theorem append_inj_of_count {as bs cs ds : List Char} (h : as ++ bs = cs ++ ds)
    (hcount : Bytes.count as = Bytes.count cs) : as = cs ∧ bs = ds := by
  induction as generalizing cs with
  | nil =>
    cases cs with
    | nil => exact ⟨rfl, h⟩
    | cons c cs =>
      have := c.utf8Size_pos
      simp only [Bytes.count_nil, Bytes.count_cons] at hcount
      omega
  | cons a as ih =>
    cases cs with
    | nil =>
      have := a.utf8Size_pos
      simp only [Bytes.count_nil, Bytes.count_cons] at hcount
      omega
    | cons c cs =>
      simp only [List.cons_append, List.cons.injEq] at h
      obtain ⟨rfl, h⟩ := h
      obtain ⟨rfl, rfl⟩ := ih h (by simpa using hcount)
      exact ⟨rfl, rfl⟩

/-- A tiling ends in a failure exactly when behind its last token and the trivia that follows stands
a character that is neither blank nor the start of a token. -/
theorem Tiles.failed_iff (h : Tiles before behind tokens ending) :
    (∃ d, ending = .error d) ↔
      ∃ middle gap c rest, behind = middle ++ (gap ++ c :: rest) ∧
        Bytes.count (before ++ middle) = lastStop (Bytes.count before) tokens ∧
        Gap gap (c :: rest) ∧ Trivia.isBlank c = false ∧ startsToken c = false := by
  obtain ⟨middle, tail, rfl, hcount, hlast⟩ := h.exists_last
  constructor
  · rintro ⟨d, rfl⟩
    cases hlast with
    | @failed _ gap rest c hgap hblank hc =>
      exact ⟨middle, gap, c, rest, rfl, hcount, hgap, hblank, hc⟩
  · rintro ⟨middle', gap, c, rest, heq, hcount', hgap, hblank, hc⟩
    have hmiddle : middle = middle' ∧ tail = gap ++ c :: rest := by
      refine append_inj_of_count heq ?_
      have := hcount.trans hcount'.symm
      simpa using this
    obtain ⟨rfl, rfl⟩ := hmiddle
    exact ⟨_, (hlast.unique (.failed hgap hblank hc)).2⟩

/-- The end of input stands behind the whole text. -/
theorem Tiles.ending_ok {t : Located Token} (h : Tiles before behind tokens (.ok t)) :
    t = ⟨.endOfInput, spanAt (before ++ behind) []⟩ := by
  generalize hending : Except.ok t = ending at h
  induction h with
  | done => simpa using hending
  | failed => contradiction
  | token _ _ _ ih => simpa using ih hending

/-- The tokens that are read from a text tile it, and nothing else does. They lie one behind the
other, each is cut out of the text at its span, and the end of input is at the end of the text.
Reading fails exactly when behind the last token and the trivia that follows stands a character that
is neither blank nor the start of a token. -/
theorem tokens_tile (text : String) :
    ∃ tokens ending,
      (TokenStream.ofSource (Source.ofString text)).tokens = (tokens, ending) ∧
      Tiles [] text.toList tokens ending ∧
      (∀ tokens' ending', Tiles [] text.toList tokens' ending' →
        tokens' = tokens ∧ ending' = ending) ∧
      (tokens.map Located.span).Pairwise (fun a b => a.stop ≤ b.start) ∧
      (∀ t ∈ tokens, ∃ front slice back, text.toList = front ++ (slice ++ back) ∧
        t.span = spanAt front slice ∧ Lexeme slice back t.value) ∧
      (∀ t, ending = .ok t → t.value = .endOfInput ∧
        t.span.start = Bytes.count text.toList ∧ t.span.stop = Bytes.count text.toList) ∧
      ((∃ d, ending = .error d) ↔
        ∃ front gap c back, text.toList = front ++ (gap ++ c :: back) ∧
          Bytes.count front = lastStop 0 tokens ∧ Gap gap (c :: back) ∧
          Trivia.isBlank c = false ∧ startsToken c = false) := by
  obtain ⟨tokens, ending, htiles⟩ := exists_tiles [] text.toList
  refine ⟨tokens, ending, ?_, htiles, ?_, htiles.pairwise_span, htiles.exists_slice, ?_,
    htiles.failed_iff⟩
  · exact TokenStream.tokens_of_tiles htiles (TokenStream.stands_ofString text)
  · intro tokens' ending' htiles'
    exact htiles'.unique htiles
  · rintro t rfl
    rw [htiles.ending_ok]
    simp [spanAt]

end CommandTree.Lexis
