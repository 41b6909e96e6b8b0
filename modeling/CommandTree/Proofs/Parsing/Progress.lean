import CommandTree.Proofs.Session.MadeCalls
import CommandTree.Proofs.Stream.Consumption

/-!
# Progress of the parser

The parser calls itself for the body of a node, loops over the children of a scope, and loops over
the words of a type. A round of any of these fails, returns, or has taken a token before a further
round starts. So a text that has no more tokens than characters is done in so many rounds inside one
another, and the limit on the rounds could be left away.

That a round takes a token is seen from the streams that it leaves to the further rounds. In a scope
it is the name of the child that is taken, whatever the token was that the round looked at; a body
takes its brace first, and a loop over words goes on behind a word only.
-/

set_option autoImplicit false

namespace CommandTree

open TokenStream

/-! ## Words of a type -/

/-- What goes on behind a word matters only behind a token. -/
theorem Reading.nextWord?_congr {α : Type} {f g : Option (Located String) → Reading Diagnostic α}
    {s : TokenStream} (hnone : f none = g none)
    (hsome : ∀ word s', s.Passes s' → f (some word) s' = g (some word) s') :
    (Reading.nextWord? >>= f) s = (Reading.nextWord? >>= g) s := by
  apply bind_congr_of_ok
  intro word s' hword
  cases word with
  | none => rw [hnone]
  | some word => exact hsome word s' (.of_nextWord? hword)

namespace ParamRule

/-- A round of the loop over a fixed number of words. So many words are left, behind those
before. -/
def exactlyRound (key : Key) (count : Nat)
    (others : Reading.Family fun _ : Nat × List String => List String) :
    Reading.Family fun _ : Nat × List String => List String
  | (0, read) => pure read.reverse
  | (left + 1, read) => do
    match ← Reading.nextWord? with
    | some word => others (left, word.value :: read)
    | Option.none =>
      let token ← Reading.peek
      Reading.fail (.atSpan (.missingParameters key count read.length token.value) token.span)

/-- A round of the loop over all words, behind those before. -/
def trailingRound (others : Reading.Family fun _ : List String => List String) :
    Reading.Family fun _ : List String => List String := fun read => do
  match ← Reading.nextWord? with
  | Option.none => pure read.reverse
  | some word => others (word.value :: read)

/-- A round over a fixed number of words takes a word before the next round. -/
theorem advances_exactlyRound (key : Key) (count : Nat) :
    Reading.Advances (exactlyRound key count) where
  forward := by
    rintro others hothers ⟨_ | left, read⟩
    · exact .pure _
    · refine Reading.Forward.nextWord?.bind fun word => ?_
      cases word with
      | some word => exact hothers _
      | none => exact Reading.Forward.peek.bind fun _ => .fail _
  congr := by
    rintro others others' s ⟨_ | left, read⟩ - - hsame
    · rfl
    · exact Reading.nextWord?_congr rfl fun word s' hpasses => hsame _ s' hpasses

/-- A round over all words takes a word before the next round. -/
theorem advances_trailingRound : Reading.Advances trailingRound where
  forward := by
    intro others hothers read
    refine Reading.Forward.nextWord?.bind fun word => ?_
    cases word with
    | some word => exact hothers _
    | none => exact .pure _
  congr := by
    intro others others' s read _ _ hsame
    exact Reading.nextWord?_congr rfl fun word s' hpasses => hsame _ s' hpasses

/-- Reading a fixed number of words makes progress. -/
theorem progresses_readExactly (key : Key) (count : Nat) :
    Reading.Progresses (exactlyRound key count)
      fun task => readExactly key count task.1 task.2 := by
  refine .of_advances (advances_exactlyRound key count) (funext ?_)
  rintro ⟨_ | left, read⟩
  · rfl
  · rfl

/-- Reading all words makes progress. -/
theorem progresses_readTrailing : Reading.Progresses trailingRound fun read => readTrailing read :=
  .of_advances advances_trailingRound (funext readTrailing_eq)

end ParamRule

/-! ## Nodes -/

namespace Tree

/-- What the parser does in a round. -/
inductive Task where
  /-- It reads a command file. -/
  | file
  /-- It reads what follows the head of a node on a level. -/
  | body (level : Nat) (head : Head)
  /-- It reads the children of a scope behind those before, through the closing brace. -/
  | scope (level : Nat) (parent : String) (opening : Span) (seen : Seen) (read : List Tree)

namespace Task

/-- What is read. -/
abbrev Result : Task → Type
  | file => Tree
  | body _ _ => Tree
  | scope _ _ _ _ _ => List Tree

/-- Reads a root, the body of which is done by `others`. -/
def takeRootWith (others : Reading.Family Result) : Reading Diagnostic Tree := do
  let name ← takeName .missingRootName
  let token ← Reading.peek
  if token.value.isWord then Reading.fail (.atSpan (.argumentAtRoot name.value) name.span)
  else others (.body 1 ⟨name, none⟩)

/-- A round of the parser. The further rounds are done by `others`. -/
def round (registry : Registry) (settings : Settings) (others : Reading.Family Result) :
    Reading.Family Result
  | file => do
    let root ← takeRootWith others
    let token ← Reading.next
    if token.value = .endOfInput then pure root
    else Reading.fail (.atSpan (.trailingInput token.value) token.span)
  | body level head =>
    match settings.maxDepth.filter (· < level) with
    | some limit => Reading.fail (.atSpan (.tooDeep limit head.name.value) head.name.span)
    | none => do
      let token ← Reading.next
      match token.value with
      | .terminator => pure (node head.name.value head.type [])
      | .openScope =>
        let children ← others (.scope level head.name.value token.span [] [])
        pure (node head.name.value head.type children)
      | other => Reading.fail (.atSpan (.missingBody head.name.value other) token.span)
  | scope level parent opening seen read => do
    let token ← Reading.peek
    if token.value = .closeScope then
      let _ ← Reading.next
      pure read.reverse
    else
      match childProblem parent opening seen token.value with
      | some problem => Reading.fail (.atSpan problem token.span)
      | none =>
        let head ← takeHead registry settings
        let child ← others (.body (level + 1) head)
        others (.scope level parent opening (noteChild seen token) (child :: read))

/-- The readings of the parser. -/
def run (registry : Registry) (settings : Settings) : Reading.Family Result
  | file => takeWhole registry settings
  | body level head => takeBody registry settings level head
  | scope level parent opening seen read =>
    takeChildren registry settings level parent opening seen read

/-- The parser is made of its rounds. -/
theorem run_eq_round (registry : Registry) (settings : Settings) :
    run registry settings = round registry settings (run registry settings) := by
  funext task
  cases task with
  | file => rw [run, takeWhole_eq, takeRoot_eq]; rfl
  | body level head =>
    rw [run, round]
    split
    · rename_i hlimit
      exact takeBody_of_limit head hlimit
    · rename_i hlimit
      exact takeBody_eq head hlimit
  | scope level parent opening seen read => rw [run, takeChildren_eq]; rfl

variable {registry : Registry} {settings : Settings} {others others' : Reading.Family Result}

/-- A round goes forward if the further rounds do. -/
theorem forward_round (hothers : ∀ task, (others task).Forward) (task : Task) :
    (round registry settings others task).Forward := by
  cases task with
  | file =>
    refine Reading.Forward.bind ?_ fun root => ?_
    · refine (forward_takeName _).bind fun name => Reading.Forward.peek.bind fun token => ?_
      split
      · exact .fail _
      · exact hothers _
    · refine Reading.Forward.next.bind fun token => ?_
      split
      · exact .pure _
      · exact .fail _
  | body level head =>
    rw [round]
    split
    · exact .fail _
    · refine Reading.Forward.next.bind fun token => ?_
      split
      · exact .pure _
      · exact (hothers _).bind fun _ => .pure _
      · exact .fail _
  | scope level parent opening seen read =>
    refine Reading.Forward.peek.bind fun token => ?_
    split
    · exact Reading.Forward.next.bind fun _ => .pure _
    split
    · exact .fail _
    · refine (forward_takeHead registry settings).bind fun head => ?_
      exact (hothers _).bind fun child => hothers _

/-- A head takes its name. -/
theorem passes_of_takeHead {s s' : TokenStream} {head : Head} (hs : s.Regular)
    (h : takeHead registry settings s = (.ok head, s')) : s.Passes s' := by
  obtain ⟨q, hname, hreach⟩ := next_of_takeHead h
  exact (Passes.of_next hname nofun).trans_reaches hs hreach

/-- The name of the root comes before its body. -/
theorem takeRootWith_congr {s : TokenStream} (hs : s.Regular)
    (hsame : ∀ task s', s.Passes s' → others task s' = others' task s') :
    takeRootWith others s = takeRootWith others' s := by
  apply Reading.bind_congr_of_ok
  intro name s₁ hname
  apply Reading.bind_congr_of_ok
  intro token s₂ hpeek
  split
  · rfl
  · have hpasses := Passes.of_next (next_of_takeName hname) nofun
    exact hsame _ s₂ (hpasses.trans_reaches hs (.peek_of_eq hpeek))

/-- A body takes its brace. -/
theorem round_body_congr {s : TokenStream} (level : Nat) (head : Head)
    (hsame : ∀ task s', s.Passes s' → others task s' = others' task s') :
    round registry settings others (body level head) s =
      round registry settings others' (body level head) s := by
  rw [round, round]
  cases settings.maxDepth.filter (· < level) with
  | some limit => rfl
  | none =>
    apply Reading.bind_congr_of_ok
    rintro ⟨value, span⟩ s' hnext
    cases value with
    | openScope =>
      apply Reading.bind_congr (hsame _ s' (.of_next hnext nofun))
      intro children s'' _
      rfl
    | _ => rfl

/-- A child takes its name, and with it the loop goes on behind a token. -/
theorem round_scope_congr {s : TokenStream} (hs : s.Regular) (level : Nat) (parent : String)
    (opening : Span) (seen : Seen) (read : List Tree) (hforward : ∀ task, (others task).Forward)
    (hsame : ∀ task s', s.Passes s' → others task s' = others' task s') :
    round registry settings others (scope level parent opening seen read) s =
      round registry settings others' (scope level parent opening seen read) s := by
  apply Reading.bind_congr_of_ok
  intro token q hpeek
  have hq : q.Regular := hs.of_reaches (.peek_of_eq hpeek)
  split
  · rfl
  cases childProblem parent opening seen token.value with
  | some problem => rfl
  | none =>
    apply Reading.bind_congr_of_ok
    intro head s₁ hhead
    have hpasses : s.Passes s₁ := .behind_peek hpeek (passes_of_takeHead hq hhead)
    apply Reading.bind_congr (hsame _ s₁ hpasses)
    intro child s₂ hbody
    have hreach := hforward (.body (level + 1) head) s₁
    rw [hbody] at hreach
    exact hsame _ s₂ (hpasses.trans_reaches hs hreach)

/-- A round of the parser takes a token before the next round, since every child has a name and
every scope a brace. -/
theorem advances_round (registry : Registry) (settings : Settings) :
    Reading.Advances (round registry settings) where
  forward := forward_round
  congr := by
    intro others others' s task hs hforward hsame
    cases task with
    | file => exact Reading.bind_congr (takeRootWith_congr hs hsame) fun _ _ _ => rfl
    | body level head => exact round_body_congr level head hsame
    | scope level parent opening seen read =>
      exact round_scope_congr hs level parent opening seen read hforward hsame

end Task

/-! ## Whole files -/

/-- Reads the tree of a command file in at most so many rounds inside one another. -/
def parseWithin (limit : Diagnostic) (rounds : Nat) (registry : Registry) (settings : Settings)
    (source : Source) : Except Diagnostic Tree :=
  match Reading.unroll (Task.round registry settings) limit rounds .file (.ofSource source) with
  | (.ok root, _) => .ok root
  | (.error d, s) => .error (d.withSource settings.sourceName s.loadedText)

/-- The parser makes progress. -/
theorem progresses_run (registry : Registry) (settings : Settings) :
    Reading.Progresses (Task.round registry settings) (Task.run registry settings) :=
  .of_advances (Task.advances_round registry settings) (Task.run_eq_round registry settings)

/-- A text has no more tokens than characters, apart from the end of input. -/
theorem length_sequence_le {text : String} {s : TokenStream}
    (hreach : (ofSource (.ofString text)).Reaches s) : s.sequence.length ≤ text.length + 1 := by
  obtain ⟨ts, hts⟩ := (regular_ofString text).exists_sequence hreach
  have hle := congrArg List.length hts
  have htokens := length_tokens_le text
  have hlast : ∀ x : Except Diagnostic (Located Token), x.toOption.toList.length ≤ 1 := by
    rintro (d | t)
    · exact Nat.zero_le _
    · exact Nat.le_refl _
  have hone := hlast (ofSource (.ofString text)).tokens.2
  rw [TokenStream.sequence, List.length_append, List.length_append] at hle
  omega

/-- The parser does not run out of rounds if there are more of them than tokens. -/
theorem parseWithin_eq (limit : Diagnostic) {rounds : Nat} (registry : Registry)
    (settings : Settings) {text : String} (hlt : text.length + 1 < rounds) :
    parseWithin limit rounds registry settings (.ofString text) =
      parse registry settings (.ofString text) := by
  have hlength := length_sequence_le (.refl (ofSource (.ofString text)))
  have hsame := (progresses_run registry settings).ends (regular_ofString text)
    (Nat.lt_of_le_of_lt hlength hlt) limit .file
  rw [parseWithin, parse_eq, hsame]
  rfl

/-- Every text, whatever it is, is taken apart and parsed with progress at each step. A scan that
finds a token passes at least one character of the text, and a word without characters is quoted, so
there are at most as many tokens as characters. A round of the parser, of the loop over a number of
words or of the loop over all words takes a token before a further round starts. So there are no
more rounds inside one another than tokens, and a parse that has a limit on them comes to the result
of the parse that has none. The calls that the parser makes take each token at most once. -/
theorem parsing_makes_progress {registry : Registry} (hready : registry.ReadyMade)
    (settings : Settings) (text : String) :
    let start := ofSource (.ofString text)
    (∀ s s' t, start.Reaches s → s.scan = (.ok t, s') → t.value ≠ .endOfInput →
      ∃ slice, s.Cuts text.toList t s' slice) ∧
    start.tokens.1.length ≤ text.length ∧
    (∀ s, start.Reaches s → s.Regular ∧ s.sequence.length ≤ text.length + 1) ∧
    Reading.Progresses (Task.round registry settings) (Task.run registry settings) ∧
    (∀ key count, Reading.Progresses (ParamRule.exactlyRound key count) fun task =>
      ParamRule.readExactly key count task.1 task.2) ∧
    Reading.Progresses ParamRule.trailingRound (fun read => ParamRule.readTrailing read) ∧
    (∀ limit rounds, text.length + 1 < rounds →
      parseWithin limit rounds registry settings (.ofString text) =
        parse registry settings (.ofString text)) ∧
    ∃ calls, (takeWhole registry settings).Makes start calls ∧
      Call.takenBy start calls <+: start.sequence ∧
      (Call.takenBy start calls).Pairwise fun t u => t.span.start < u.span.start := by
  intro start
  have hregular : start.Regular := regular_ofString text
  refine ⟨?_, length_tokens_le text, ?_, progresses_run registry settings,
    ParamRule.progresses_readExactly, ParamRule.progresses_readTrailing, ?_, ?_⟩
  · intro s s' t hreach hscan ht
    obtain ⟨before, behind, htext, hstands⟩ := (standsIn_ofString text).of_reaches hreach
    exact cuts_of_scan htext hstands hscan ht
  · intro s hreach
    exact ⟨hregular.of_reaches hreach, length_sequence_le hreach⟩
  · intro limit rounds hlt
    exact parseWithin_eq limit registry settings hlt
  · obtain ⟨calls, hmakes, hfront⟩ := takeWhole_takes_once hready settings hregular
    exact ⟨calls, hmakes, hfront, (pairwise_sequence text).sublist hfront.sublist⟩

/-- A text that ends in a scope and in a comment. -/
theorem progress_in_truncated_text :
    let registry : Registry := ⟨[.minecraft, .brigadier]⟩
    let text := "r \x7b a bool; /*"
    let source := Source.ofString text
    registry.ReadyMade ∧
    (refusal? registry .standard source).map Diagnostic.message =
      some "expected '\x7d' to close the scope of 'r' opened at line 1, found end of input" ∧
    (∀ limit, parseWithin limit 16 registry .standard source = parse registry .standard source) ∧
    ∃ calls, (takeWhole registry .standard).Makes (.ofSource source) calls ∧
      (Call.takenBy (.ofSource source) calls).Pairwise fun t u => t.span.start < u.span.start := by
  intro registry text source
  have hready : registry.ReadyMade := by simp [registry, Registry.ReadyMade, Resolver.isReadyMade]
  have hrounds : text.length + 1 < 16 := by decide +kernel
  obtain ⟨-, -, -, -, -, -, hwithin, calls, hmakes, -, hpairwise⟩ :=
    parsing_makes_progress hready .standard text
  exact ⟨hready, by decide +kernel, fun limit => hwithin limit 16 hrounds, calls, hmakes, hpairwise⟩

end Tree

end CommandTree
