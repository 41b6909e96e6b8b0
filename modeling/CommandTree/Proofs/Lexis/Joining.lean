import CommandTree.Proofs.Lexis.Tiling

/-!
# Joined lines

A newline between two texts keeps them apart: the tokens of both together are those of the first
and then those of the second, which stand further back by what is in front of them. The second text
may fail, and then the whole fails at the place that it fails at.

A token or a comment that is open where the first text ends is closed by the newline in the way in
which the end of the text closes it. There are two exceptions. A block comment goes on behind the
newline, and so does a quoted word whose last character is a backslash, because the backslash then
escapes the newline. `EndsInComment` and `EndsInEscape` say that a text ends in one of these ways.
-/

set_option autoImplicit false

namespace CommandTree

/-! ## Moving places -/

/-- The span of the same stretch behind so many bytes with so many newlines. -/
def Span.moved (bytes newlines : Nat) (span : Span) : Span :=
  ⟨span.start + bytes, span.stop + bytes, span.line + newlines⟩

/-- The token at the moved place. -/
def Located.moved {α : Type} (bytes newlines : Nat) (t : Located α) : Located α :=
  ⟨t.value, t.span.moved bytes newlines⟩

/-- The diagnostic with all its places moved. -/
def Diagnostic.moved (bytes newlines : Nat) (d : Diagnostic) : Diagnostic :=
  { d with
    line := d.line + newlines
    span := d.span.map (·.moved bytes newlines)
    related := d.related.map fun label => { label with span := label.span.moved bytes newlines } }

namespace Lexis

/-- The end of input or the failure at the moved place. -/
def movedEnding (bytes newlines : Nat) :
    Except Diagnostic (Located Token) → Except Diagnostic (Located Token)
  | .ok t => .ok (t.moved bytes newlines)
  | .error d => .error (d.moved bytes newlines)

/-- A stretch behind more text has the span that it had, moved by that text. -/
theorem spanAt_append (front before slice : List Char) :
    spanAt (front ++ before) slice =
      (spanAt before slice).moved (Bytes.count front) (front.count '\n') := by
  simp only [spanAt, Span.moved, Bytes.count_append, List.count_append, Span.mk.injEq]
  omega

variable {before behind rest : List Char} {tokens tokens' : List (Located Token)}
  {ending : Except Diagnostic (Located Token)}

/-- A tiling does not depend on what stands in front of the text, except for the places. -/
theorem Tiles.moved (front : List Char) (h : Tiles before behind tokens ending) :
    Tiles (front ++ before) behind
      (tokens.map (Located.moved (Bytes.count front) (front.count '\n')))
      (movedEnding (Bytes.count front) (front.count '\n') ending) := by
  induction h with
  | @done before gap hgap =>
    have htiles := @Tiles.done (front ++ before) gap hgap
    rwa [List.append_assoc, spanAt_append] at htiles
  | @failed before gap behind c hgap hblank hc =>
    have htiles := @Tiles.failed (front ++ before) gap behind c hgap hblank hc
    rwa [List.append_assoc, spanAt_append] at htiles
  | @token before gap slice behind value tokens ending hgap hlexeme _ ih =>
    rw [List.append_assoc, ← List.append_assoc] at ih
    have htiles := @Tiles.token (front ++ before) gap slice behind value _ _ hgap hlexeme
      (by simpa using ih)
    rwa [List.append_assoc, spanAt_append] at htiles

/-! ## Trivia in front of a newline -/

/-- In front of some character, trivia is trivia whatever stands there. -/
theorem Gap.change {gap : List Char} (h : Gap gap behind) (hne : behind ≠ []) : Gap gap rest := by
  induction h with
  | nothing => exact .nothing _
  | blank hc _ ih => exact .blank hc (ih hne)
  | lineComment hbody _ ih => exact .lineComment hbody (ih hne)
  | openLineComment => contradiction
  | blockComment hbody _ ih => exact .blockComment hbody (ih hne)
  | openBlockComment => contradiction

/-- Trivia in front of trivia is trivia. -/
theorem Gap.append {gap gap' : List Char} (h : Gap gap (gap' ++ behind)) (h' : Gap gap' behind) :
    Gap (gap ++ gap') behind := by
  generalize hbehind : gap' ++ behind = after at h
  induction h with
  | nothing => exact h'
  | blank hc _ ih => exact .blank hc (ih hbehind)
  | lineComment hbody _ ih => simpa using Gap.lineComment hbody (ih hbehind)
  | openLineComment hbody =>
    obtain ⟨rfl, rfl⟩ := List.append_eq_nil_iff.mp hbehind
    simpa using Gap.openLineComment hbody
  | blockComment hbody _ ih => simpa using Gap.blockComment hbody (ih hbehind)
  | openBlockComment hbody =>
    obtain ⟨rfl, rfl⟩ := List.append_eq_nil_iff.mp hbehind
    simpa using Gap.openBlockComment hbody

/-- A block comment that nothing closes, behind trivia. -/
def OpenComment (text : List Char) : Prop :=
  ∃ gap body, text = gap ++ '/' :: '*' :: body ∧ Gap gap ('/' :: '*' :: body) ∧
    ¬ ['*', '/'] <:+: body

/-- Trivia at the end of a text goes on with a newline as trivia, unless a block comment is open. -/
theorem Gap.newline {gap : List Char} (h : Gap gap behind) (hend : behind = [])
    (hopen : ¬ OpenComment gap) : Gap (gap ++ ['\n']) rest := by
  -- what is in front of an open comment belongs to the trivia in front of it
  induction h with
  | nothing => exact .blank (by decide) (.nothing _)
  | @blank c gap _ hc _ ih =>
    refine .blank hc (ih hend fun hcomment => ?_)
    obtain ⟨gap', body, rfl, hgap, hbody⟩ := hcomment
    exact hopen ⟨c :: gap', body, rfl, .blank hc hgap, hbody⟩
  | @lineComment inner gap _ hinner _ ih =>
    have hgap := ih hend fun hcomment => ?_
    · simpa using Gap.lineComment hinner hgap
    obtain ⟨gap', body, rfl, hgap, hbody⟩ := hcomment
    exact hopen ⟨_, body, by simp, .lineComment hinner hgap, hbody⟩
  | openLineComment hbody => exact .lineComment hbody (.nothing _)
  | @blockComment inner gap _ hinner _ ih =>
    have hgap := ih hend fun hcomment => ?_
    · simpa using Gap.blockComment hinner hgap
    obtain ⟨gap', body, rfl, hgap, hbody⟩ := hcomment
    exact hopen ⟨_, body, by simp, .blockComment hinner hgap, hbody⟩
  | @openBlockComment body hbody => exact absurd ⟨[], body, rfl, .nothing _, hbody⟩ hopen

/-- Trivia in front of a text adds nothing to its tokens. -/
theorem Tiles.behind_gap {gap : List Char} (hgap : ∀ rest, Gap gap rest)
    (h : Tiles (before ++ gap) behind tokens ending) :
    Tiles before (gap ++ behind) tokens ending := by
  cases h with
  | done hgap' =>
    have htiles := @Tiles.done before _ ((hgap (behind ++ [])).append hgap')
    rwa [← List.append_assoc] at htiles
  | @failed _ gap' behind c hgap' hblank hc =>
    have htiles := @Tiles.failed before _ _ c ((hgap _).append hgap') hblank hc
    rwa [List.append_assoc, ← List.append_assoc before] at htiles
  | @token _ gap' slice behind value _ _ hgap' hlexeme hrest =>
    have htiles := @Tiles.token before _ slice _ value _ _ ((hgap _).append hgap') hlexeme
      (by rwa [← List.append_assoc])
    rwa [List.append_assoc, ← List.append_assoc before] at htiles

/-! ## Tokens in front of a newline -/

/-- A token stays a token when a newline follows the text behind it, unless it is a quoted word that
ends with a backslash at the end of the text. -/
theorem Lexeme.newline {slice : List Char} {value : Token} (h : Lexeme slice behind value)
    (hescape : behind = [] → ∀ body spelled, Spells body spelled →
      slice ≠ '"' :: (body ++ ['\\'])) :
    Lexeme slice (behind ++ '\n' :: rest) value := by
  cases h with
  | openScope => exact .openScope _
  | closeScope => exact .closeScope _
  | terminator => exact .terminator _
  | bare hword => exact .bare (hword.append rfl)
  | quoted hbody hclosing =>
    refine .quoted hbody ?_
    cases hclosing with
    | quote => exact .quote _
    | lineEnd _ hc => exact .lineEnd _ hc
    | atEnd => exact .lineEnd rest rfl
    | backslashAtEnd => exact absurd rfl (hescape rfl _ _ hbody)

/-! ## Texts in front of a newline -/

/-- The text behind `before` ends inside a block comment: what stands behind its last token is
trivia and then a comment that nothing closes. -/
def EndsInComment (before behind : List Char) (tokens : List (Located Token)) : Prop :=
  ∃ middle last, behind = middle ++ last ∧
    Bytes.count (before ++ middle) = lastStop (Bytes.count before) tokens ∧ OpenComment last

/-- The text behind `before` ends right behind a backslash inside a quoted word, which is its last
token. -/
def EndsInEscape (before behind : List Char) (tokens : List (Located Token)) : Prop :=
  ∃ middle body spelled, behind = middle ++ '"' :: (body ++ ['\\']) ∧ Spells body spelled ∧
    tokens.getLast?.map Located.span =
      some (spanAt (before ++ middle) ('"' :: (body ++ ['\\'])))

section

variable {gap slice : List Char} {value : Token}

/-- Where the text behind a token ends inside a comment, so does the text with the token. -/
theorem EndsInComment.behind_token (h : EndsInComment (before ++ gap ++ slice) behind tokens) :
    EndsInComment before (gap ++ (slice ++ behind))
      (⟨value, spanAt (before ++ gap) slice⟩ :: tokens) := by
  obtain ⟨middle, last, rfl, hcount, hopen⟩ := h
  refine ⟨gap ++ slice ++ middle, last, by simp, ?_, hopen⟩
  simpa [lastStop, spanAt] using hcount

/-- Where the text behind a token ends in an escape, so does the text with the token. -/
theorem EndsInEscape.behind_token (h : EndsInEscape (before ++ gap ++ slice) behind tokens) :
    EndsInEscape before (gap ++ (slice ++ behind))
      (⟨value, spanAt (before ++ gap) slice⟩ :: tokens) := by
  obtain ⟨middle, body, spelled, rfl, hbody, hlast⟩ := h
  refine ⟨gap ++ slice ++ middle, body, spelled, by simp, hbody, ?_⟩
  obtain ⟨t, ht, hspan⟩ := Option.map_eq_some_iff.mp hlast
  rw [List.getLast?_cons, ht]
  simpa using hspan

end

/-- The empty text has no tokens. -/
theorem Tiles.nil_of_nil (h : Tiles before [] tokens ending) : tokens = [] := by
  generalize htext : ([] : List Char) = text at h
  cases h with
  | done => rfl
  | failed => simp at htext
  | token _ hlexeme =>
    cases hlexeme with
    | bare hword => exact absurd htext (by simp [hword.ne_nil])
    | _ => simp at htext

/-- A text, a newline and another text have the tokens of the first and then those of the second. -/
theorem Tiles.join {last : Located Token} (h : Tiles before behind tokens (.ok last))
    (hcomment : ¬ EndsInComment before behind tokens)
    (hescape : ¬ EndsInEscape before behind tokens)
    (hrest : Tiles (before ++ behind ++ ['\n']) rest tokens' ending) :
    Tiles before (behind ++ '\n' :: rest) (tokens ++ tokens') ending := by
  generalize hok : Except.ok last = first at h
  induction h with
  | @done before gap hgap =>
    have hopen : ¬ OpenComment gap := by
      intro hopen
      exact hcomment ⟨[], gap, rfl, by simp [lastStop], hopen⟩
    rw [List.append_assoc] at hrest
    simpa using hrest.behind_gap fun _ => hgap.newline rfl hopen
  | failed => contradiction
  | @token before gap slice behind value tokens _ hgap hlexeme htiles ih =>
    have hslice : slice ++ behind ≠ [] := by
      cases hlexeme with
      | bare hword => simp [hword.ne_nil]
      | _ => simp
    have hlexeme' : Lexeme slice (behind ++ '\n' :: rest) value := by
      refine hlexeme.newline fun hbehind body spelled hbody hbackslash => ?_
      subst hbehind hbackslash
      obtain rfl := htiles.nil_of_nil
      exact hescape ⟨gap, body, spelled, by simp, hbody, rfl⟩
    have hjoined := ih (mt EndsInComment.behind_token hcomment)
      (mt EndsInEscape.behind_token hescape) (by simpa using hrest) hok
    simpa using Tiles.token (hgap.change hslice) hlexeme' hjoined

/-- A text that is read without failure, a newline and another text are read as the tokens of the
first, which does not end in a block comment or behind a backslash in a quoted word, and then what
the second is read as, further back by the first and the newline. -/
theorem tokens_of_joined_lines (first second : String) {tokens : List (Located Token)}
    {last : Located Token}
    (h : (TokenStream.ofSource (.ofString first)).tokens = (tokens, .ok last))
    (hcomment : ¬ EndsInComment [] first.toList tokens)
    (hescape : ¬ EndsInEscape [] first.toList tokens) :
    let bytes := Bytes.count first.toList + 1
    let newlines := first.toList.count '\n' + 1
    (TokenStream.ofSource (.ofString (first ++ "\n" ++ second))).tokens =
      (tokens ++ (TokenStream.ofSource (.ofString second)).tokens.1.map
          (Located.moved bytes newlines),
        movedEnding bytes newlines (TokenStream.ofSource (.ofString second)).tokens.2) := by
  intro bytes newlines
  obtain ⟨tokens₁, ending₁, htiles₁⟩ := exists_tiles [] first.toList
  obtain ⟨tokens₂, ending₂, htiles₂⟩ := exists_tiles [] second.toList
  have hfirst := TokenStream.tokens_of_tiles htiles₁ (TokenStream.stands_ofString first)
  have hsecond := TokenStream.tokens_of_tiles htiles₂ (TokenStream.stands_ofString second)
  obtain ⟨rfl, rfl⟩ := Prod.mk.inj (hfirst.symm.trans h)
  have hmoved := htiles₂.moved (first.toList ++ ['\n'])
  rw [List.append_nil] at hmoved
  have hjoined := htiles₁.join hcomment hescape hmoved
  have htext : (first ++ "\n" ++ second).toList = first.toList ++ '\n' :: second.toList := by simp
  rw [← htext] at hjoined
  rw [TokenStream.tokens_of_tiles hjoined (TokenStream.stands_ofString _), hsecond]
  have hnewline : '\n'.utf8Size = 1 := rfl
  simp [bytes, newlines, hnewline]

/-- A quoted word that is open at the end of a line ends there, and so does an octal escape at its
end. The failure in the second line stays where it is. -/
theorem joined_lines_behind_octal_escape :
    let first := "a \"b\\1"
    let second := "2 / é"
    ∃ tokens last d,
      (TokenStream.ofSource (.ofString first)).tokens = (tokens, .ok last) ∧
      ¬ EndsInComment [] first.toList tokens ∧ ¬ EndsInEscape [] first.toList tokens ∧
      (TokenStream.ofSource (.ofString second)).tokens.2 = .error d ∧
      (TokenStream.ofSource (.ofString (first ++ "\n" ++ second))).tokens =
        (tokens ++ [⟨.word "2", ⟨7, 8, 2⟩⟩, ⟨.word "/", ⟨9, 10, 2⟩⟩], .error (d.moved 7 1)) := by
  intro first second
  have hok : (TokenStream.ofSource (.ofString first)).tokens.2.isOk = true := by decide +kernel
  have hfails : (TokenStream.ofSource (.ofString second)).tokens.2.isOk = false := by
    decide +kernel
  have hsecond : (TokenStream.ofSource (.ofString second)).tokens.1 =
      [⟨.word "2", ⟨0, 1, 1⟩⟩, ⟨.word "/", ⟨2, 3, 1⟩⟩] := by
    decide +kernel
  rcases hfirst : (TokenStream.ofSource (.ofString first)).tokens with ⟨tokens, _ | last⟩
  · rw [hfirst] at hok
    contradiction
  rcases hends : (TokenStream.ofSource (.ofString second)).tokens.2 with d | last'
  · have hcomment : ¬ EndsInComment [] first.toList tokens := by
      rintro ⟨middle, _, htext, -, gap, body, rfl, -⟩
      have hstar : '*' ∉ first.toList := by decide +kernel
      simp [htext] at hstar
    have hescape : ¬ EndsInEscape [] first.toList tokens := by
      rintro ⟨middle, body, spelled, htext, -⟩
      have hlast : first.toList.getLast? ≠ some '\\' := by decide +kernel
      rw [htext, ← List.cons_append, ← List.append_assoc] at hlast
      exact hlast List.getLast?_concat
    refine ⟨tokens, last, d, rfl, hcomment, hescape, rfl, ?_⟩
    have hbytes : Bytes.count first.toList = 6 := by decide +kernel
    have hnewlines : first.toList.count '\n' = 0 := by decide +kernel
    rw [tokens_of_joined_lines first second hfirst hcomment hescape, hsecond, hends, hbytes,
      hnewlines]
    rfl
  · rw [hends] at hfails
    contradiction

end Lexis

end CommandTree
