import CommandTree.Proofs.Format.WrittenWords
import CommandTree.Proofs.Grammar.TreeFailures

/-!
# Diagnostics point at the earliest token

A parse that fails at a token does so as early as possible. The tokens before it are the start of
some text that is parsed, and with the token they are the start of no such text. The one exception
is the type behind the name of the root, where the diagnostic points at the name and not at the word
that follows.

What the parser blames is said with the tokens of whole files. Every list of tokens is read from
some text, so these are also the tokens of the texts that are parsed.
-/

set_option autoImplicit false

namespace CommandTree

open Lexis

/-! ## A text for every list of tokens -/

/-- A way to write a token in front of a blank. -/
def Token.chars : Token → List Char
  | openScope => ['{']
  | closeScope => ['}']
  | terminator => [';']
  | word text => (Quoted.write text).toList
  | endOfInput => []

/-- Tokens with a blank behind each. -/
def Token.spaced (ts : List Token) : List Char := ts.flatMap fun t => t.chars ++ [' ']

/-- A token is read again from the characters it is written with, as long as a blank is behind
them. -/
theorem Token.lexeme_chars {t : Token} (ht : t ≠ .endOfInput) (behind : List Char) :
    Lexeme t.chars (' ' :: behind) t := by
  cases t with
  | openScope => exact .openScope _
  | closeScope => exact .closeScope _
  | terminator => exact .terminator _
  | word text => exact lexeme_write text rfl
  | endOfInput => exact absurd rfl ht

/-- Tokens are read again from the text in which each is followed by a blank. -/
theorem Token.reads_spaced {ts : List Token} (h : Token.endOfInput ∉ ts) :
    Reads (spaced ts) ts := by
  induction ts with
  | nil => exact Reads.nil
  | cons t ts ih =>
    have hne : t ≠ .endOfInput := (List.ne_of_not_mem_cons h).symm
    have hbehind := (ih (List.not_mem_of_not_mem_cons h)).blank (c := ' ') (by decide)
    have hall := hbehind.lexeme (lexeme_chars hne (spaced ts))
    simpa [spaced] using hall

namespace Tree

variable {registry : Registry} {settings : Settings}

/-! ## Texts that are parsed -/

/-- The tokens are a prefix of those of some text that is parsed. -/
def StartsParsedText (registry : Registry) (settings : Settings) (ts : List Token) : Prop :=
  ∃ text t, parse registry settings (.ofString text) = .ok t ∧
    ts <+: (TokenStream.ofSource (.ofString text)).sequence.map Located.value

/-- The tokens of texts that are parsed are the tokens of whole files. -/
theorem startsParsedText_iff (hready : registry.ReadyMade) (hunlimited : settings.maxDepth = none)
    (ts : List Token) :
    StartsParsedText registry settings ts ↔
      Viable (Phrase.WholeFile registry settings.defaultSpace) ts := by
  constructor
  · rintro ⟨text, t, hparse, more, hmore⟩
    obtain ⟨p, hlexes, hwords, hp⟩ :=
      (exists_parse_iff_accepted hready hunlimited _).mp ⟨t, hparse⟩
    rw [hlexes.sequence_eq] at hmore
    exact ⟨more, p, hp, hwords, hmore⟩
  · rintro ⟨more, p, hp, hwords, hmore⟩
    have hreads := Token.reads_spaced p.endOfInput_notMem_tokens
    have hlexes : (TokenStream.ofSource (.ofString (String.ofList (Token.spaced p.tokens)))).Lexes
        p.tokens := by
      apply Reads.lexes
      rwa [String.toList_ofList]
    obtain ⟨t, hparse⟩ :=
      (exists_parse_iff_accepted hready hunlimited _).mpr ⟨p, hlexes, hwords, hp⟩
    refine ⟨_, t, hparse, more, ?_⟩
    rw [hlexes.sequence_eq, hmore]

/-- Tokens that no command file goes along with start no text that is parsed. -/
theorem not_startsParsedText (hready : registry.ReadyMade) (hunlimited : settings.maxDepth = none)
    {ts : List Token} (h : ¬ Meets (Phrase.WholeFile registry settings.defaultSpace) ts) :
    ¬ StartsParsedText registry settings ts := by
  rw [startsParsedText_iff hready hunlimited]
  rintro ⟨more, hwhole⟩
  exact h ⟨ts ++ more, [], more, hwhole, List.append_nil _⟩

/-- The diagnostic of a failed parse, unless the characters of the text form no tokens. -/
theorem blames_of_parse (hready : registry.ReadyMade) (hunlimited : settings.maxDepth = none)
    {source : Source} {d : Diagnostic} (h : parse registry settings source = .error d)
    (hkind : d.kind ≠ .lexical) :
    d.Blames (Phrase.WholeFile registry settings.defaultSpace)
        (TokenStream.ofSource source).sequence ∨
      BlamesWordBehindRoot (Phrase.WholeFile registry settings.defaultSpace)
        (TokenStream.ofSource source).sequence d := by
  rw [parse_eq] at h
  rcases htake : takeWhole registry settings (.ofSource source) with ⟨d' | t, s⟩
  · rw [htake] at h
    obtain rfl := Except.error.inj h
    -- attaching the text to a diagnostic changes neither its problem nor its place
    have hblames := blames_of_takeWhole hready hunlimited htake hkind
    exact hblames
  · rw [htake] at h
    contradiction

/-- Where a text is not parsed because of its tokens, the diagnostic points at one of them. The
tokens before that one start a text that is parsed, and the tokens through that one do not. If the
name of the root is followed by a type, the diagnostic points at the name, and the tokens through
the word behind it are the first that start no text that is parsed. -/
theorem earliest_token_is_blamed (hready : registry.ReadyMade)
    (hunlimited : settings.maxDepth = none) {text : String} {d : Diagnostic}
    (h : parse registry settings (.ofString text) = .error d) (hkind : d.kind ≠ .lexical) :
    let read := (TokenStream.ofSource (.ofString text)).sequence
    (∃ (k : Nat) (t : Located Token), read[k]? = some t ∧ d.span = some t.span) ∧
    ∀ (k : Nat) (t : Located Token), read[k]? = some t → d.span = some t.span →
      StartsParsedText registry settings ((read.take k).map Located.value) ∧
      ((∀ name, d.problem ≠ .argumentAtRoot name) →
        ¬ StartsParsedText registry settings ((read.take (k + 1)).map Located.value)) ∧
      ∀ name, d.problem = .argumentAtRoot name →
        StartsParsedText registry settings ((read.take (k + 1)).map Located.value) ∧
        ¬ StartsParsedText registry settings ((read.take (k + 2)).map Located.value) := by
  intro read
  have hunique : ∀ (k k' : Nat) (t t' : Located Token), read[k]? = some t → d.span = some t.span →
      read[k']? = some t' → d.span = some t'.span → k = k' := by
    intro k k' t t' hk hspan hk' hspan'
    refine TokenStream.eq_of_span_eq hk hk' ?_
    rw [hspan, Option.some.injEq] at hspan'
    exact hspan'
  obtain ⟨hproblem, taken, t, rest, hread, hspan, hviable, hrefused⟩ |
    ⟨name, t, rest, hread, hspan, ⟨text', hproblem⟩, hviable, hrefused⟩ :=
    blames_of_parse hready hunlimited h hkind
  · have hat : read[taken.length]? = some t := by simp [read, hread]
    refine ⟨⟨_, t, hat, hspan⟩, fun k t' hk hspan' => ?_⟩
    obtain rfl := hunique _ _ _ _ hk hspan' hat hspan
    have htake : read.take taken.length = taken := by simp [read, hread]
    have htake' : read.take (taken.length + 1) = taken ++ [t] := by
      rw [List.take_add_one, htake, hat]
      rfl
    rw [htake, htake', List.map_append, List.map_singleton]
    refine ⟨(startsParsedText_iff hready hunlimited _).mpr hviable,
      fun _ => not_startsParsedText hready hunlimited hrefused, fun name hname => ?_⟩
    exact absurd hname (hproblem name)
  · have hat : read[0]? = some name := by simp [read, hread]
    refine ⟨⟨0, name, hat, hspan⟩, fun k t' hk hspan' => ?_⟩
    obtain rfl := hunique _ _ _ _ hk hspan' hat hspan
    have hstart := (startsParsedText_iff hready hunlimited _).mpr hviable
    have htake : (read.take 1).map Located.value = [name.value] := by simp [read, hread]
    have htake' : (read.take 2).map Located.value = [name.value, t.value] := by simp [read, hread]
    refine ⟨?_, fun hother => absurd hproblem (hother text'), fun _ _ => ⟨?_, ?_⟩⟩
    · obtain ⟨other, u, hparse, hprefix⟩ := hstart
      exact ⟨other, u, hparse, List.nil_prefix⟩
    · rw [htake]
      exact hstart
    · rw [htake']
      exact not_startsParsedText hready hunlimited hrefused

/-- A selection that there is not is the earliest token to blame, behind tokens that start a text.
-/
theorem earliest_token_is_selection :
    let registry : Registry := ⟨[.minecraft]⟩
    let settings : Settings := ⟨none, "minecraft", "<input>"⟩
    let text := "r \x7b a entity nobody; \x7d"
    ∃ d, parse registry settings (.ofString text) = .error d ∧
      d.kind = .typing ∧ d.span = some ⟨13, 19, 1⟩ ∧
      StartsParsedText registry settings
        [.word "r", .openScope, .word "a", .word "entity"] ∧
      ¬ StartsParsedText registry settings
        [.word "r", .openScope, .word "a", .word "entity", .word "nobody"] := by
  intro registry settings text
  have hready : registry.ReadyMade := by simp [registry, Registry.ReadyMade, Resolver.isReadyMade]
  have hfails : (refusal? registry settings (.ofString text)).map (fun d => (d.kind, d.span)) =
      some (.typing, some ⟨13, 19, 1⟩) := by
    decide +kernel
  obtain ⟨d, hparse, hplace⟩ := exists_of_refusal? hfails
  obtain ⟨hkind, hspan⟩ := Prod.mk.inj hplace
  have hlexical : d.kind ≠ .lexical := by
    rw [hkind]
    decide
  have hproblem : ∀ name, d.problem ≠ .argumentAtRoot name := by
    intro name hname
    rw [Diagnostic.kind, hname] at hkind
    contradiction
  have hat : (TokenStream.ofSource (.ofString text)).sequence[4]? =
      some ⟨.word "nobody", ⟨13, 19, 1⟩⟩ := by decide +kernel
  obtain ⟨-, htokens⟩ := earliest_token_is_blamed hready rfl hparse hlexical
  obtain ⟨hstarts, hrefused, -⟩ := htokens 4 _ hat hspan
  have hbefore : ((TokenStream.ofSource (.ofString text)).sequence.take 4).map Located.value =
      [.word "r", .openScope, .word "a", .word "entity"] := by decide +kernel
  have hthrough : ((TokenStream.ofSource (.ofString text)).sequence.take 5).map Located.value =
      [.word "r", .openScope, .word "a", .word "entity", .word "nobody"] := by decide +kernel
  rw [hbefore] at hstarts
  have hrefused := hrefused hproblem
  rw [hthrough] at hrefused
  exact ⟨d, hparse, hkind, hspan, hstarts, hrefused⟩

end Tree

end CommandTree
