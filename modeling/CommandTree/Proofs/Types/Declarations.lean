import CommandTree.Proofs.Diagnostics.EarliestToken
import CommandTree.Proofs.Format.Formatting
import CommandTree.Proofs.Types.Claimants
import CommandTree.Proofs.Types.OwnWords

/-!
# What a types file declares

A declaration means what it says on its own. Its key is well formed, because the file was checked. A
command file reaches the type by the key, and by the name alone where the namespace is the default
one and no built-in type has the name. What is read behind the word depends on the rule that is
declared for the key and on no other declaration. A key whose parameters the types of the game check
is no exception, except that these read the parameters and not the rule.
-/

set_option autoImplicit false

namespace CommandTree

/-! ## Rules -/

namespace ParamRule

variable {key : Key} {rule : ParamRule} {s : TokenStream} {words : List String} {other : Token}

/-- A fixed number of words is read if there are that many. -/
theorem readExactly_of_upcoming (key : Key) (count : Nat) (read : List String) {left : Nat}
    (h : s.Upcoming (words.map .word ++ [other])) (hle : left ≤ words.length) :
    ∃ s', readExactly key count left read s = (.ok (read.reverse ++ words.take left), s') := by
  induction left generalizing read words s with
  | zero => exact ⟨s, by simp [readExactly, Reading.pure_apply]⟩
  | succ left ih =>
    cases words with
    | nil => simp at hle
    | cons word words =>
      obtain ⟨span, q, hword, hq⟩ := TokenStream.nextWord?_of_word h
      obtain ⟨s', hread⟩ := ih (word :: read) hq (by simpa using hle)
      refine ⟨s', (Reading.bind_of_ok hword _).trans (hread.trans ?_)⟩
      simp

/-- Where words are missing, the token behind those that are there is reported. -/
theorem readExactly_of_missing (key : Key) (count : Nat) (read : List String) {left : Nat}
    (hother : other.isWord = false) (h : s.Upcoming (words.map .word ++ [other]))
    (hlt : words.length < left) :
    ∃ span s', s.sequence[words.length]? = some ⟨other, span⟩ ∧
      readExactly key count left read s = (.error (.atSpan
        (.missingParameters key count (read.length + words.length) other) span), s') := by
  induction left generalizing read words s with
  | zero => simp at hlt
  | succ left ih =>
    cases words with
    | nil =>
      obtain ⟨q, hword, hq⟩ := TokenStream.nextWord?_of_other h hother
      obtain ⟨span, s', hpeek, -⟩ := TokenStream.peek_of_upcoming hq
      obtain ⟨rest, hrest⟩ := TokenStream.exists_sequence_of_peek hpeek
      have hsequence := (TokenStream.sequence_of_nextWord?_none hword).1
      refine ⟨span, s', by rw [hsequence, hrest]; rfl, ?_⟩
      exact (Reading.bind_of_ok hword _).trans (Reading.bind_of_ok hpeek _)
    | cons word words =>
      obtain ⟨span, q, hword, hq⟩ := TokenStream.nextWord?_of_word h
      obtain ⟨span', s', hat, hread⟩ := ih (word :: read) hq (by simpa using hlt)
      refine ⟨span', s', ?_, (Reading.bind_of_ok hword _).trans (hread.trans ?_)⟩
      · rw [TokenStream.sequence_of_nextWord? hword, List.length_cons, List.getElem?_cons_succ, hat]
      · simp [Nat.add_comm, Nat.add_left_comm]

/-- The words of a rule are taken if there are enough. -/
theorem consume_of_upcoming (key : Key) (rule : ParamRule) (hother : other.isWord = false)
    (h : s.Upcoming (words.map .word ++ [other])) (hle : rule.taken words.length ≤ words.length) :
    ∃ s', rule.consume key s = (.ok (words.take (rule.taken words.length)), s') := by
  cases rule with
  | none => exact ⟨s, rfl⟩
  | exactly count => exact readExactly_of_upcoming key count [] h hle
  | optional =>
    cases words with
    | nil =>
      obtain ⟨q, hword, -⟩ := TokenStream.nextWord?_of_other h hother
      exact ⟨q, Reading.bind_of_ok hword _⟩
    | cons word words =>
      obtain ⟨span, q, hword, -⟩ := TokenStream.nextWord?_of_word h
      have htaken : taken optional (word :: words).length = 1 := by
        simp only [taken, List.length_cons]
        omega
      rw [htaken]
      exact ⟨q, Reading.bind_of_ok hword _⟩
  | trailing =>
    obtain ⟨s', hread, -⟩ := readTrailing_of_upcoming [] hother h
    exact ⟨s', by rw [taken, List.take_length]; exact hread⟩

/-- A reading takes the parameters of a key by a rule. The payload consists of the words that the
rule takes, and all else is left in place. Where there are fewer words, the token behind them is
reported together with their number. -/
structure Governs (rule : ParamRule) (key : Key) (m : Reading Diagnostic ArgType) : Prop where
  /-- The words that the rule takes are the payload. -/
  enough : ∀ {s : TokenStream} {words : List String} {other : Token}, other.isWord = false →
    s.Upcoming (words.map .word ++ [other]) → rule.taken words.length ≤ words.length →
    ∃ s', m s = (.ok (.ofKey key (words.take (rule.taken words.length))), s') ∧
      s'.sequence = s.sequence.drop (rule.taken words.length) ∧
      s'.Upcoming ((words.drop (rule.taken words.length)).map .word ++ [other])
  /-- Missing words are reported. -/
  tooFew : ∀ {s : TokenStream} {words : List String} {other : Token}, other.isWord = false →
    s.Upcoming (words.map .word ++ [other]) → words.length < rule.taken words.length →
    ∃ span s', s.sequence[words.length]? = some ⟨other, span⟩ ∧
      m s = (.error (.atSpan (.missingParameters key (rule.taken words.length) words.length other)
        span), s')

/-- Taking the words of a rule and keeping them for a key is governed by that rule. -/
theorem governs (key : Key) (rule : ParamRule) :
    rule.Governs key (do
      let payload ← rule.consume key
      pure (.ofKey key payload)) := by
  constructor
  · intro s words other hother hs hle
    obtain ⟨s', hconsume⟩ := rule.consume_of_upcoming key hother hs hle
    obtain ⟨-, hsequence, hleft⟩ := rule.takes_consume key hother hs hconsume
    exact ⟨s', Reading.bind_of_ok hconsume _, hsequence, hleft⟩
  · intro s words other hother hs hlt
    -- only a count can ask for more words than there are
    cases rule with
    | none => simp [taken] at hlt
    | exactly count =>
      obtain ⟨span, s', hat, hread⟩ := readExactly_of_missing key count [] hother hs hlt
      refine ⟨span, s', hat, (Reading.bind_of_error hread _).trans ?_⟩
      simp [taken]
    | optional =>
      simp only [taken] at hlt
      omega
    | trailing => simp [taken] at hlt

end ParamRule

/-! ## Command files -/

/-- The tokens of a phrase that denotes a tree are those of some text, and this text is parsed as
the tree exactly under the settings that allow its depth. -/
theorem Phrase.Denotes.exists_text {registry : Registry} (hready : registry.ReadyMade)
    {defaultSpace : String} {p : Phrase} {t : Tree} (h : p.Denotes registry defaultSpace t)
    (hliteral : p.words = []) (hdistinct : t.Distinct) :
    ∃ text, (TokenStream.ofSource (.ofString text)).Lexes p.tokens ∧
      ∀ settings : Settings, settings.defaultSpace = defaultSpace →
        (Tree.parse registry settings (.ofString text) = .ok t ↔
          settings.allows t.depth = true) := by
  have hreads := Token.reads_spaced p.endOfInput_notMem_tokens
  have hlexes : (TokenStream.ofSource (.ofString (String.ofList (Token.spaced p.tokens)))).Lexes
      p.tokens := by
    apply Lexis.Reads.lexes
    rwa [String.toList_ofList]
  refine ⟨_, hlexes, ?_⟩
  rintro settings rfl
  rw [Tree.parse_eq_ok_iff_derives hready]
  constructor
  · rintro ⟨p', hp'⟩
    exact hp'.allowed
  · intro hallowed
    exact ⟨p, hlexes, hliteral, h, hdistinct, hallowed⟩

/-- Words that declare a type do so for an argument below the root. -/
theorem Registry.Types.exists_text {registry : Registry} (hready : registry.ReadyMade)
    {defaultSpace : String} {words : List String} {type : ArgType}
    (h : registry.Types defaultSpace words (some type)) (root argument : String) :
    ∃ text, (TokenStream.ofSource (.ofString text)).Lexes
        (Phrase.scope root [] [.leaf argument words]).tokens ∧
      ∀ settings : Settings, settings.defaultSpace = defaultSpace →
        (Tree.parse registry settings (.ofString text) =
            .ok (.node root none [.node argument (some type) []]) ↔
          settings.allows 2 = true) := by
  have hargument : (Phrase.leaf argument words).Denotes registry defaultSpace
      (.node argument (some type) []) := ⟨rfl, h, rfl⟩
  have hroot : (Phrase.scope root [] [.leaf argument words]).Denotes registry defaultSpace
      (.node root none [.node argument (some type) []]) := ⟨rfl, .literal, hargument, trivial⟩
  have hdistinct : (Tree.node root none [.node argument (some type) []]).Distinct := by
    simp [Tree.Distinct, Tree.DistinctAll]
  exact hroot.exists_text hready rfl hdistinct

/-- The rule of a declared type allows some words. -/
theorem ParamRule.exists_allows (rule : ParamRule) : ∃ words, rule.Allows words := by
  cases rule with
  | none => exact ⟨[], rfl⟩
  | exactly count => exact ⟨List.replicate count "", List.length_replicate⟩
  | optional => exact ⟨[], Nat.zero_le 1⟩
  | trailing => exact ⟨[], trivial⟩

namespace TypesFile

variable {file file' : TypesFile} {key : Key} {rule : ParamRule} {word : String}

/-! ## Words for keys -/

/-- A word that stands for a key in a command file: the key itself, or its name alone if the
namespace is the default one and no built-in type has the name. -/
def Spells (file : TypesFile) (key : Key) (word : String) : Prop :=
  word = key.text ∨
    word = key.name ∧ key.space = file.settings.defaultSpace ∧ Builtin.ofName? key.name = none

/-- A word that spells a key is no name of a built-in type and is parsed to that key. -/
theorem Spells.parse (h : file.Spells key word) :
    Builtin.ofName? word = none ∧ Key.parse word file.settings.defaultSpace = .ok key := by
  obtain rfl | ⟨rfl, hspace, hname⟩ := h
  · exact ⟨Builtin.ofName?_text key, key.parse_text _⟩
  · exact ⟨hname, hspace ▸ key.parse_name⟩

/-- A word that spells a key is resolved by the first resolver that claims the key. -/
theorem Spells.resolve {resolver : Resolver} (h : file.Spells key word)
    (hfind : file.registry.find? key = some resolver) (span : Span) :
    file.registry.resolve file.settings.defaultSpace ⟨word, span⟩ =
      Reading.mapError (Registry.diagnose ⟨word, span⟩ key resolver) (resolver.read key) := by
  obtain ⟨hname, hkey⟩ := h.parse
  simp only [Registry.resolve, hname, hkey, hfind]

/-- Behind a word for a key whose parameters the types of the game check, these read them. -/
theorem Spells.resolve_checks (h : file.Spells key word) (hchecks : file.Checks key) (span : Span) :
    ∃ m, Resolver.minecraft.Reads key m ∧
      Resolver.minecraft.read key = Reading.mapError .diagnosed m ∧
      file.registry.resolve file.settings.defaultSpace ⟨word, span⟩ = m := by
  have hclaims := (Resolver.claims_minecraft_iff key).mpr hchecks.2
  obtain ⟨m, hreads, hread⟩ := @Resolver.exists_reads .minecraft key rfl hclaims
  refine ⟨m, hreads, hread, ?_⟩
  rw [h.resolve (file.find?_registry key |>.1 hchecks), hread, Registry.mapError_diagnose]

/-- Behind a word for a declared key its rule reads the parameters. -/
theorem Spells.resolve_declared (h : file.Spells key word) (hchecks : ¬ file.Checks key)
    (hrule : file.rule? key = some rule) (span : Span) :
    file.registry.resolve file.settings.defaultSpace ⟨word, span⟩ = (do
      let payload ← rule.consume key
      pure (.ofKey key payload)) := by
  obtain ⟨types, -, hname, hfind⟩ := (file.find?_registry key).2.1 hchecks rule hrule
  rw [h.resolve hfind, Resolver.read, Resolver.readDeclared, hname]
  exact Registry.mapError_diagnose _ _ _ _

/-! ## Declarations -/

/-- A checked types file declares keys only. -/
theorem exists_key_of_ofText {text : String} (h : ofText text = .ok file) {space name : String}
    {types : SortedTable ParamRule} (hspace : (space, types) ∈ file.namespaces.entries)
    (hname : (name, rule) ∈ types.entries) :
    ∃ key : Key, key.space = space ∧ key.name = name ∧ file.rule? key = some rule := by
  have hproblem : file.problem? = none := by
    unfold ofText at h
    split at h
    · contradiction
    · split at h
      · contradiction
      · rename_i hnone
        rwa [← Except.ok.inj h]
  obtain ⟨-, hentries⟩ := Option.or_eq_none_iff.mp hproblem
  have htypes := List.findSome?_eq_none_iff.mp hentries _ hspace
  have hcheck := List.findSome?_eq_none_iff.mp htypes _ hname
  have hmade : ∃ key, Key.make space name = .ok key := by
    cases hkey : Key.make space name with
    | ok key => exact ⟨key, rfl⟩
    | error e =>
      simp only [checkDeclaration, hkey] at hcheck
      contradiction
  obtain ⟨key, hkey⟩ := hmade
  obtain ⟨rfl, rfl⟩ := (Key.make_eq_ok_iff space name key).mp hkey
  refine ⟨key, rfl, rfl, ?_⟩
  rw [rule?, SortedTable.lookup_of_mem hspace, Option.bind_some, SortedTable.lookup_of_mem hname]

/-- The words that a declared key allows for its parameters. -/
def Allows (file : TypesFile) (key : Key) (rule : ParamRule) (payload : List String) : Prop :=
  (file.Checks key → Resolver.minecraft.Declares key payload (.ofKey key payload)) ∧
    (¬ file.Checks key → rule.Allows payload)

/-- A key is declared with a rule, and a word that spells it stands for just that. -/
structure Means (file : TypesFile) (key : Key) (rule : ParamRule) (word : String) : Prop where
  /-- The rule governs the parameters, unless the types of the game check them. -/
  governs : ¬ file.Checks key → ∀ span,
    rule.Governs key (file.registry.resolve file.settings.defaultSpace ⟨word, span⟩)
  /-- Where the parameters are wrong, the name is not to blame. -/
  spares : ∀ span,
    (file.registry.resolve file.settings.defaultSpace ⟨word, span⟩).SparesName
  /-- There are parameters that are allowed. -/
  allows : ∃ payload, file.Allows key rule payload
  /-- An argument of the type can be written. It is read with the settings of the file, and with all
  others of the same default namespace, that allow what any argument needs, a second level. -/
  reachable : ∀ (root argument : String) (payload : List String), file.Allows key rule payload →
    ∃ text, (TokenStream.ofSource (.ofString text)).Lexes
        (Phrase.scope root [] [.leaf argument (word :: payload)]).tokens ∧
      ∀ settings : Settings, settings.defaultSpace = file.settings.defaultSpace →
        (Tree.parse file.registry settings (.ofString text) =
            .ok (.node root none [.node argument (some (.ofKey key payload)) []]) ↔
          settings.allows 2 = true)
  /-- Other types files that declare the key with the rule read the same parameters. -/
  unaffected : ∀ (file' : TypesFile) (word' : String), file'.rule? key = some rule →
    (file'.Checks key ↔ file.Checks key) → file'.Spells key word' → ∀ span span',
    file'.registry.resolve file'.settings.defaultSpace ⟨word', span'⟩ =
      file.registry.resolve file.settings.defaultSpace ⟨word, span⟩

/-- Every rule of a file allows some words. -/
theorem exists_allows (file : TypesFile) (key : Key) (rule : ParamRule) :
    ∃ payload, file.Allows key rule payload := by
  by_cases hchecks : file.Checks key
  · have hclaims := (Resolver.claims_minecraft_iff key).mpr hchecks.2
    obtain ⟨m, hreads, -⟩ := @Resolver.exists_reads .minecraft key rfl hclaims
    cases hreads with
    | entity hentity =>
      exact ⟨_, fun _ => .entity .entity hentity, fun hnot => absurd hchecks hnot⟩
    | scoreHolder hholder =>
      exact ⟨_, fun _ => .scoreHolder hholder, fun hnot => absurd hchecks hnot⟩
  · obtain ⟨payload, hallows⟩ := rule.exists_allows
    exact ⟨payload, fun h => absurd h hchecks, fun _ => hallows⟩

/-- The parameters that a declared key allows declare the type of the key. -/
theorem Spells.types (h : file.Spells key word) (hrule : file.rule? key = some rule)
    {payload : List String} (hallows : file.Allows key rule payload) :
    file.registry.Types file.settings.defaultSpace (word :: payload)
      (some (.ofKey key payload)) := by
  obtain ⟨hname, hkey⟩ := h.parse
  obtain ⟨hminecraft, hdeclared, -⟩ := file.find?_registry key
  by_cases hchecks : file.Checks key
  · exact .extension hname hkey (hminecraft hchecks) (hallows.1 hchecks)
  · obtain ⟨types, -, hlookup, hfind⟩ := hdeclared hchecks rule hrule
    exact .extension hname hkey hfind (.declared hlookup (hallows.2 hchecks))

/-- A word that spells a declared key means what the file declares. -/
theorem Spells.means (h : file.Spells key word) (hrule : file.rule? key = some rule) :
    file.Means key rule word := by
  refine ⟨?_, ?_, exists_allows file key rule, ?_, ?_⟩
  · intro hchecks span
    rw [h.resolve_declared hchecks hrule]
    exact ParamRule.governs key rule
  · intro span
    by_cases hchecks : file.Checks key
    · obtain ⟨m, hreads, -, hresolve⟩ := h.resolve_checks hchecks span
      rw [hresolve]
      exact hreads.sparesName
    · rw [h.resolve_declared hchecks hrule]
      exact (ParamRule.sparesName_consume key rule).bind fun _ => .pure _
  · intro root argument payload hallows
    exact (h.types hrule hallows).exists_text file.readyMade_registry root argument
  · intro file' word' hrule' hsame h' span span'
    by_cases hchecks : file.Checks key
    · have hclaim := fun file : TypesFile => (file.find?_registry key).1
      rw [h.resolve (hclaim file hchecks), h'.resolve (hclaim file' (hsame.mpr hchecks))]
      obtain ⟨m, -, hread, -⟩ := h.resolve_checks hchecks span
      rw [hread, Registry.mapError_diagnose, Registry.mapError_diagnose]
    · rw [h.resolve_declared hchecks hrule, h'.resolve_declared (hsame.not.mpr hchecks) hrule']

/-- Which resolver has a key depends on what the types file says about this key alone. Everything
that a checked types file declares is a key, and a word that spells the key stands for the declared
type, whatever else the file declares. -/
theorem declarations_mean {text : String} (h : ofText text = .ok file) :
    (∀ key,
      (file.Checks key → file.registry.find? key = some .minecraft) ∧
      (¬ file.Checks key → ∀ rule, file.rule? key = some rule →
        ∃ types, file.namespaces.lookup key.space = some types ∧
          types.lookup key.name = some rule ∧
          file.registry.find? key = some (.declared key.space types)) ∧
      (¬ file.Checks key → file.rule? key = none →
        (file.Aliases key → file.registry.find? key = some .brigadier) ∧
        (¬ file.Aliases key → file.registry.find? key = none))) ∧
    ∀ space types name rule, (space, types) ∈ file.namespaces.entries →
      (name, rule) ∈ types.entries →
      ∃ key : Key, key.space = space ∧ key.name = name ∧ file.rule? key = some rule ∧
        ∀ word, file.Spells key word → file.Means key rule word := by
  refine ⟨file.find?_registry, fun space types name rule hspace hname => ?_⟩
  obtain ⟨key, rfl, rfl, hrule⟩ := exists_key_of_ofText h hspace hname
  exact ⟨key, rfl, rfl, hrule, fun word hspells => hspells.means hrule⟩

/-- A pair of the default namespace, next to declarations that share their keys with the types of
the game and with the other names of the built-in types. -/
theorem declarations_mean_pair :
    let text := "minecraft_types: true\nbrigadier_aliases: true\ndefault_namespace: my\n" ++
      "namespaces:\n brigadier:\n  bool:\n minecraft:\n  entity:\n my:\n  pair:\n   params: 2"
    ∃ file, ofText text = .ok file ∧
      file.registry.find? ⟨"minecraft", "entity", by decide, by decide⟩ = some .minecraft ∧
      (∃ types, file.registry.find? ⟨"brigadier", "bool", by decide, by decide⟩ =
        some (.declared "brigadier" types)) ∧
      file.registry.find? ⟨"brigadier", "string", by decide, by decide⟩ = some .brigadier ∧
      file.registry.find? ⟨"my", "entity", by decide, by decide⟩ = none ∧
      file.Means ⟨"my", "pair", by decide, by decide⟩ (.exactly 2) "pair" := by
  intro text
  let file : TypesFile := ⟨none, some "my", true, true, .ofList
    [("brigadier", .ofList [("bool", .none)]), ("minecraft", .ofList [("entity", .none)]),
      ("my", .ofList [("pair", .exactly 2)])]⟩
  have hread : (ofText text).toOption = some file := by decide +kernel
  have hfile : ofText text = .ok file := by
    rcases h : ofText text with d | file'
    · rw [h] at hread
      contradiction
    · rw [h] at hread
      rw [Option.some.inj hread]
  obtain ⟨hfind, hmean⟩ := declarations_mean hfile
  refine ⟨file, hfile, ?_, ?_, ?_, ?_, ?_⟩
  · exact (hfind _).1 ⟨rfl, Or.inl rfl⟩
  · have hchecks : ¬ file.Checks ⟨"brigadier", "bool", by decide, by decide⟩ := by decide
    obtain ⟨types, -, -, h⟩ := (hfind _).2.1 hchecks .none (by decide +kernel)
    exact ⟨types, h⟩
  · have hchecks : ¬ file.Checks ⟨"brigadier", "string", by decide, by decide⟩ := by decide
    exact ((hfind _).2.2 hchecks (by decide +kernel)).1 ⟨rfl, .string, rfl⟩
  · have hchecks : ¬ file.Checks ⟨"my", "entity", by decide, by decide⟩ := by decide
    refine ((hfind _).2.2 hchecks (by decide +kernel)).2 ?_
    rintro ⟨-, builtin, h⟩
    have hclaims := (Resolver.claims_brigadier_iff _).mpr ⟨builtin, h⟩
    revert hclaims
    decide
  · obtain ⟨key, hspace, hname, -, hwords⟩ := hmean "my" (.ofList [("pair", .exactly 2)]) "pair"
      (.exactly 2) (by decide +kernel) (by decide +kernel)
    obtain ⟨space, name, hspace', hname'⟩ := key
    obtain rfl : space = "my" := hspace
    obtain rfl : name = "pair" := hname
    have hbuiltin : Builtin.ofName? "pair" = none := by decide
    exact hwords "pair" (Or.inr ⟨rfl, rfl, hbuiltin⟩)

end TypesFile

end CommandTree
