import CommandTree.Proofs.Format.TypeWordsKept
import CommandTree.Proofs.Format.WrittenTrees
import CommandTree.Proofs.Grammar.Parsing

/-!
# Writing a tree and reading it back

A tree whose types are declared by their own words is read back from its canonical form. Two kinds
of trees are like that. One is described from outside: its bounds are in order and the resolvers
give its extension types again when they are asked to read the payloads. The other are the trees
that the parser returns.
-/

set_option autoImplicit false

namespace CommandTree

/-! ## Types that are read again -/

/-- A type can be read again from its words: bounds are in order, and the first resolver that claims
the key of an extension type, run on the payload in front of a token that is no word, consumes
exactly the payload and returns that type. -/
def ArgType.Rereadable (registry : Registry) : ArgType → Prop
  | bool | string _ => True
  | number kind lower upper => kind.Ordered lower upper
  | extension space name payload =>
    ∃ (key : Key) (resolver : Resolver), key.space = space ∧ key.name = name ∧
      registry.find? key = some resolver ∧
      ∀ (s : TokenStream) (other : Token), other.isWord = false →
        s.Upcoming (payload.map .word ++ [other]) →
        ∃ s', resolver.read key s = (.ok (.extension space name payload), s') ∧
          s.Consumes (payload.map .word) s'

namespace ArgType

variable {registry : Registry}

/-- There is a text with any words in front of a semicolon. -/
theorem exists_upcoming (words : List String) :
    ∃ s : TokenStream, s.Upcoming (words.map .word ++ [.terminator]) := by
  have hend : Lexis.Reads ";".toList [.terminator] := Lexis.Reads.nil.lexeme (.terminator [])
  have hreads := Lexis.Reads.words words rfl hend
  rw [← String.toList_append] at hreads
  refine ⟨.ofSource (.ofString _), ((TokenStream.lexes_iff ?_).mp hreads.lexes).of_append⟩
  simp

/-- What a resolver does with the payload of a type is what it declares. -/
theorem rereadable_extension_iff (hready : registry.ReadyMade) (key : Key)
    (payload : List String) :
    (ofKey key payload).Rereadable registry ↔
      ∃ resolver, registry.find? key = some resolver ∧
        resolver.Declares key payload (.ofKey key payload) := by
  constructor
  · rintro ⟨key', resolver, hspace, hname, hfind, hread⟩
    obtain rfl : key' = key := by
      cases key
      cases key'
      cases hspace
      cases hname
      rfl
    -- one text on which the resolver takes the payload tells what it declares
    obtain ⟨s, hs⟩ := exists_upcoming payload
    obtain ⟨s', hok, -⟩ := hread s .terminator rfl hs
    obtain ⟨words, hdeclares, -⟩ := (Registry.accepts_read_of_find? hready hfind).sound hok
    obtain ⟨-, -, rfl⟩ := hdeclares.extension
    exact ⟨resolver, hfind, hdeclares⟩
  · rintro ⟨resolver, hfind, hdeclares⟩
    have haccepts := Registry.accepts_read_of_find? hready hfind
    refine ⟨key, resolver, rfl, rfl, hfind, fun s other hother hs => ?_⟩
    obtain ⟨s', hok, -⟩ := haccepts.complete hdeclares hother hs
    obtain ⟨words, hdeclares', hconsumes⟩ := haccepts.sound hok
    obtain ⟨-, -, rfl⟩ := hdeclares'.extension
    exact ⟨s', hok, hconsumes⟩

/-- A type that can be read again is declared by its own words. -/
theorem Rereadable.types (hready : registry.ReadyMade) (defaultSpace : String) {type : ArgType}
    (h : type.Rereadable registry) : registry.Types defaultSpace type.words (some type) := by
  cases type with
  | bool => exact .builtin .bool
  | string mode => exact .builtin (.string mode)
  | number kind lower upper =>
    have hwords := NumberKind.declaresBounds_boundWords h
    exact .builtin (.number hwords)
  | extension space name payload =>
    have hread := h
    obtain ⟨key, _, rfl, rfl, -⟩ := h
    obtain ⟨resolver, hfind, hdeclares⟩ := (rereadable_extension_iff hready key payload).mp hread
    exact Registry.types_extension_words hfind hdeclares

end ArgType

/-! ## Trees that are read back -/

namespace Tree

variable {registry : Registry} {settings : Settings}

mutual

/-- Every type in a tree has a property. -/
def EveryType (P : ArgType → Prop) : Tree → Prop
  | node _ type children => (∀ a, type = some a → P a) ∧ EveryTypeAll P children

/-- Every type in a list of trees has a property. -/
def EveryTypeAll (P : ArgType → Prop) : List Tree → Prop
  | [] => True
  | t :: ts => EveryType P t ∧ EveryTypeAll P ts

end

mutual

/-- What holds of every type in a tree may be weakened. -/
theorem EveryType.mono {P Q : ArgType → Prop} (hPQ : ∀ a, P a → Q a) {t : Tree}
    (h : t.EveryType P) : t.EveryType Q := by
  obtain ⟨name, type, children⟩ := t
  exact ⟨fun a ha => hPQ a (h.1 a ha), EveryTypeAll.mono hPQ h.2⟩

/-- What holds of every type in a list of trees may be weakened. -/
theorem EveryTypeAll.mono {P Q : ArgType → Prop} (hPQ : ∀ a, P a → Q a) {ts : List Tree}
    (h : EveryTypeAll P ts) : EveryTypeAll Q ts := by
  cases ts with
  | nil => trivial
  | cons t ts => exact ⟨h.1.mono hPQ, EveryTypeAll.mono hPQ h.2⟩

end

/-- A type is declared by its own words. -/
abbrev KeepsWords (registry : Registry) (defaultSpace : String) (type : ArgType) : Prop :=
  registry.Types defaultSpace type.words (some type)

/-- The words of a type declare it, and no words declare that there is none. -/
theorem types_words {defaultSpace : String} {type : Option ArgType}
    (h : ∀ a, type = some a → KeepsWords registry defaultSpace a) :
    registry.Types defaultSpace ((type.map ArgType.words).getD []) type := by
  cases type with
  | none => exact .literal
  | some a => exact h a rfl

mutual

/-- The phrase of a tree denotes that tree if its types are declared by their own words. -/
theorem denotes_phrase {defaultSpace : String} {t : Tree}
    (h : t.EveryType (KeepsWords registry defaultSpace)) :
    t.phrase.Denotes registry defaultSpace t := by
  obtain ⟨name, type, children⟩ := t
  have htypes := types_words h.1
  have hall := denotesAll_phraseAll h.2
  cases children with
  | nil => exact ⟨rfl, htypes, rfl⟩
  | cons child children => exact ⟨rfl, htypes, hall⟩

/-- The phrases of trees denote these trees, one for one. -/
theorem denotesAll_phraseAll {defaultSpace : String} {ts : List Tree}
    (h : EveryTypeAll (KeepsWords registry defaultSpace) ts) :
    Phrase.DenotesAll registry defaultSpace (phraseAll ts) ts := by
  cases ts with
  | nil => trivial
  | cons t ts => exact ⟨denotes_phrase h.1, denotesAll_phraseAll h.2⟩

end

/-- A tree whose types are declared by their own words is read back from its canonical form. -/
theorem parse_source_of_keepsWords (hready : registry.ReadyMade) {t : Tree}
    (hliteral : t.type = none) (hdistinct : t.Distinct) (hdepth : settings.allows t.depth = true)
    (htypes : t.EveryType (KeepsWords registry settings.defaultSpace)) :
    parse registry settings (.ofString t.source) = .ok t := by
  rw [parse_eq_ok_iff_derives hready]
  refine ⟨t.phrase, t.lexes_source, ?_, denotes_phrase htypes, hdistinct, hdepth⟩
  obtain ⟨name, type, children⟩ := t
  obtain rfl : type = none := hliteral
  cases children <;> rfl

/-- A tree whose root is a literal, whose siblings have different names and whose types can be read
again is what its canonical form is read as. -/
theorem parse_source (hready : registry.ReadyMade) (hunlimited : settings.maxDepth = none)
    (t : Tree) (hliteral : t.type = none) (hdistinct : t.Distinct)
    (htypes : t.EveryType (ArgType.Rereadable registry)) :
    parse registry settings (.ofString t.source) = .ok t := by
  refine parse_source_of_keepsWords hready hliteral hdistinct ?_ ?_
  · rw [Settings.allows, hunlimited]
    rfl
  · exact htypes.mono fun a ha => ha.types hready settings.defaultSpace

/-- A tree with an empty name, names with quotes and comments in them, a bound and a payload of odd
words is read back. -/
theorem parse_source_odd_names :
    let registry : Registry := ⟨[.minecraft, .declared "my" (.ofList [("pair", .exactly 2)])]⟩
    let t : Tree := .node "" none [
      .node "\"é\"\n"
        (some (.number .integer ⟨-3, by decide, by decide⟩ ⟨5, by decide, by decide⟩)) [],
      .node "//" (some (.extension "my" "pair" ["", "x;"])) [.node "/*" none []]]
    parse registry ⟨none, "minecraft", "odd"⟩ (.ofString t.source) = .ok t := by
  intro registry t
  have hready : registry.ReadyMade := by simp [registry, Registry.ReadyMade, Resolver.isReadyMade]
  refine parse_source hready rfl t rfl ?_ ?_
  · simp [t, Distinct, DistinctAll, name]
  · have hbounds : (ArgType.number .integer ⟨-3, by decide, by decide⟩
        ⟨5, by decide, by decide⟩).Rereadable registry := Or.inr (by decide)
    have hpair : (ArgType.extension "my" "pair" ["", "x;"]).Rereadable registry :=
      (ArgType.rereadable_extension_iff hready ⟨"my", "pair", by decide, by decide⟩ _).mpr
        ⟨_, rfl, .declared rfl rfl⟩
    have hnone : ∀ a, (none : Option ArgType) = some a → a.Rereadable registry := by simp
    refine ⟨hnone, ⟨?_, trivial⟩, ⟨?_, ⟨hnone, trivial⟩, trivial⟩, trivial⟩
    · intro a ha
      exact Option.some.inj ha ▸ hbounds
    · intro a ha
      exact Option.some.inj ha ▸ hpair

end Tree

end CommandTree
