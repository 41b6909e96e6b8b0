import CommandTree.Proofs.Parsing.TreeShape

/-!
# Which resolver is asked

A parse asks its registry in one way only: for the first resolver that claims the key named by a
word which is not the name of a built-in type. Two registries with the same first claimants
therefore give the same results, and a registry with more resolvers at its end gives the same
results where the shorter one finds a claimant for every key that it comes across.

Where the shorter one finds none, its parse fails with `Problem.unknownType`. So the two parses are
compared up to such failures: `SameUnless` relates an outcome to another that is the same unless the
first is a failure of a certain sort. It is kept by sequencing, which carries it from the resolution
of a type up to whole files.
-/

set_option autoImplicit false

namespace CommandTree

namespace Reading

variable {α β : Type} {P : Diagnostic → Prop}

/-- The first outcome is the second, unless it is a failure with a diagnostic of a certain sort. -/
def SameUnless (P : Diagnostic → Prop) (x y : Except Diagnostic α × TokenStream) : Prop :=
  x = y ∨ ∃ d s, x = (.error d, s) ∧ P d

/-- What does the same does so without exception. -/
theorem SameUnless.refl (x : Except Diagnostic α × TokenStream) : SameUnless P x x := Or.inl rfl

/-- Readings that are the same unless the first one fails in a certain way are so in sequence. -/
theorem SameUnless.bind {m m' : Reading Diagnostic α} {f f' : α → Reading Diagnostic β}
    {s : TokenStream} (hm : SameUnless P (m s) (m' s))
    (hf : ∀ a q, m s = (.ok a, q) → SameUnless P (f a q) (f' a q)) :
    SameUnless P ((m >>= f) s) ((m' >>= f') s) := by
  obtain hsame | ⟨d, q, herror, hd⟩ := hm
  · rcases hm : m s with ⟨d | a, q⟩
    · rw [bind_of_error hm, bind_of_error (hsame ▸ hm)]
      exact .refl _
    · rw [bind_of_ok hm, bind_of_ok (hsame ▸ hm)]
      exact hf a q hm
  · rw [bind_of_error herror]
    exact Or.inr ⟨d, q, rfl, hd⟩

/-- The same first step, with different ones behind it. -/
theorem SameUnless.behind {m : Reading Diagnostic α} {f f' : α → Reading Diagnostic β}
    {s : TokenStream} (hf : ∀ a q, m s = (.ok a, q) → SameUnless P (f a q) (f' a q)) :
    SameUnless P ((m >>= f) s) ((m >>= f') s) :=
  .bind (.refl _) hf

end Reading

open Reading (SameUnless)

/-! ## Parses that agree -/

namespace Tree

variable {P : Diagnostic → Prop} {registry registry' : Registry} {settings : Settings}

/-- Every word is resolved in the same way by two registries, unless the first fails with a
diagnostic of a certain sort. -/
def ResolvesUnless (P : Diagnostic → Prop) (registry registry' : Registry) (settings : Settings) :
    Prop :=
  ∀ word s, SameUnless P (registry.resolve settings.defaultSpace word s)
    (registry'.resolve settings.defaultSpace word s)

/-- A head is the same, unless a word is resolved with a failure of that sort. -/
theorem sameUnless_takeHead (h : ResolvesUnless P registry registry' settings) (s : TokenStream) :
    SameUnless P (takeHead registry settings s) (takeHead registry' settings s) := by
  rw [takeHead_eq, takeHead_eq]
  apply SameUnless.behind
  intro name q _
  apply SameUnless.bind
  · rw [takeType_eq, takeType_eq]
    apply SameUnless.behind
    intro word q' _
    cases word with
    | none => exact .refl _
    | some word => exact (h word q').bind fun _ _ _ => .refl _
  · intro type q' _
    exact .refl _

mutual

/-- A body is the same, unless a word is resolved with a failure of that sort. -/
theorem sameUnless_takeBody (h : ResolvesUnless P registry registry' settings) (level : Nat)
    (head : Head) (s : TokenStream) :
    SameUnless P (takeBody registry settings level head s)
      (takeBody registry' settings level head s) := by
  cases hlevel : settings.maxDepth.filter (· < level) with
  | some limit =>
    rw [takeBody_of_limit head hlevel, takeBody_of_limit head hlevel]
    exact .refl _
  | none =>
    rw [takeBody_eq head hlevel, takeBody_eq head hlevel]
    apply SameUnless.behind
    rintro ⟨value, span⟩ q hnext
    cases value with
    | openScope =>
      have hlt := TokenStream.size_next_lt hnext (by simp)
      apply SameUnless.bind
      · exact sameUnless_takeChildren h level head.name.value span [] [] q
      · intro children q' _
        exact .refl _
    | _ => exact .refl _
termination_by s.size
decreasing_by exact hlt

/-- The children of a scope are the same, unless a word is resolved with a failure of that sort. -/
theorem sameUnless_takeChildren (h : ResolvesUnless P registry registry' settings) (level : Nat)
    (parent : String) (opening : Span) (seen : Seen) (read : List Tree) (s : TokenStream) :
    SameUnless P (takeChildren registry settings level parent opening seen read s)
      (takeChildren registry' settings level parent opening seen read s) := by
  rw [takeChildren_eq, takeChildren_eq]
  apply SameUnless.behind
  intro token q hpeek
  have hle := TokenStream.size_le_of_reaches (TokenStream.Reaches.peek_of_eq hpeek)
  split
  · exact .refl _
  cases childProblem parent opening seen token.value with
  | some problem => exact .refl _
  | none =>
    apply (sameUnless_takeHead h q).bind
    intro head s₁ hhead
    have hlt₁ := Nat.lt_of_lt_of_le (size_takeHead_lt hhead) hle
    apply (sameUnless_takeBody h (level + 1) head s₁).bind
    intro child s₂ hbody
    have hlt₂ := Nat.lt_trans (size_takeBody_lt hbody) hlt₁
    exact sameUnless_takeChildren h level parent opening (noteChild seen token) (child :: read) s₂
termination_by s.size
decreasing_by
  · exact hlt₁
  · exact hlt₂

end

/-- A command file is the same, unless a word is resolved with a failure of that sort. -/
theorem sameUnless_takeWhole (h : ResolvesUnless P registry registry' settings) (s : TokenStream) :
    SameUnless P (takeWhole registry settings s) (takeWhole registry' settings s) := by
  rw [takeWhole_eq, takeWhole_eq]
  apply SameUnless.bind
  · rw [takeRoot_eq, takeRoot_eq]
    apply SameUnless.behind
    intro name q _
    apply SameUnless.behind
    intro token q' _
    split
    · exact .refl _
    · exact sameUnless_takeBody h 1 _ q'
  · intro root q _
    exact .refl _

/-- Two registries that resolve every word alike, up to failures of a certain sort, parse a source
alike up to such failures. -/
theorem parse_eq_or_of_resolvesUnless (h : ResolvesUnless P registry registry' settings)
    (source : Source) :
    parse registry settings source = parse registry' settings source ∨
      ∃ d text, parse registry settings source = .error (d.withSource settings.sourceName text) ∧
        P d := by
  rw [parse_eq, parse_eq]
  obtain hsame | ⟨d, s, herror, hd⟩ := sameUnless_takeWhole h (.ofSource source)
  · rw [hsame]
    exact Or.inl rfl
  · rw [herror]
    exact Or.inr ⟨d, _, rfl, hd⟩

end Tree

/-! ## First claimants -/

namespace Registry

variable {registry registry' : Registry}

/-- A built-in type is read without the registry. -/
theorem resolve_of_ofName? {word : Located String} {builtin : Builtin}
    (h : Builtin.ofName? word.value = some builtin) (registry : Registry) (defaultSpace : String) :
    registry.resolve defaultSpace word = builtin.read := by
  rw [resolve, h]

/-- A word that is not the name of a built-in type is resolved by the first claimant of its key. -/
theorem resolve_congr {defaultSpace : String} {word : Located String}
    (h : ∀ key, Builtin.ofName? word.value = none → Key.parse word.value defaultSpace = .ok key →
      registry.find? key = registry'.find? key) :
    registry.resolve defaultSpace word = registry'.resolve defaultSpace word := by
  unfold resolve
  cases hname : Builtin.ofName? word.value with
  | some builtin => rfl
  | none =>
    cases hkey : Key.parse word.value defaultSpace with
    | error e => rfl
    | ok key => simp only [h key hname hkey]

/-- A registry that gives every key with a claimant to the same claimant resolves a word alike,
unless the first one knows no type of that name. -/
theorem resolve_eq_or_of_find? (defaultSpace : String) (word : Located String)
    (h : ∀ key resolver, registry.find? key = some resolver → registry'.find? key = some resolver) :
    registry.resolve defaultSpace word = registry'.resolve defaultSpace word ∨
      ∃ key, registry.resolve defaultSpace word =
        Reading.fail (.atSpan (.unknownType key) word.span) := by
  unfold resolve
  cases Builtin.ofName? word.value with
  | some builtin => exact Or.inl rfl
  | none =>
    cases Key.parse word.value defaultSpace with
    | error e => exact Or.inl rfl
    | ok key =>
      cases hfind : registry.find? key with
      | none =>
        right
        exact ⟨key, by simp only [hfind]⟩
      | some resolver =>
        left
        simp only [hfind, h key resolver hfind]

/-- Swapping two neighbours that claim no key in common does not change which resolver claims a
key. -/
theorem find?_swap {before after : List Resolver} {first second : Resolver}
    (h : ∀ key, first.claims key = true → second.claims key = false) (key : Key) :
    find? ⟨before ++ second :: first :: after⟩ key =
      find? ⟨before ++ first :: second :: after⟩ key := by
  simp only [find?, List.find?_append, List.find?_cons]
  cases hfirst : first.claims key with
  | false => cases second.claims key <;> rfl
  | true => rw [h key hfirst]

end Registry

namespace Tree

variable {registry registry' : Registry} {settings : Settings}

/-- A parse depends on the first claimants of keys that are named by words other than the names of
built-in types, and on nothing else in the registry. -/
theorem parse_congr
    (h : ∀ word key, Builtin.ofName? word = none →
      Key.parse word settings.defaultSpace = .ok key → registry.find? key = registry'.find? key)
    (source : Source) : parse registry settings source = parse registry' settings source := by
  have hresolves : ResolvesUnless (fun _ => False) registry registry' settings := by
    intro word s
    rw [Registry.resolve_congr fun key => h word.value key]
    exact .refl _
  obtain hsame | ⟨_, _, _, hfalse⟩ := parse_eq_or_of_resolvesUnless hresolves source
  · exact hsame
  · exact hfalse.elim

/-- More resolvers at the end make no difference to a parse that knows all types it comes across. -/
theorem parse_append (more : List Resolver) {source : Source}
    (hknown : ∀ d key, parse registry settings source = .error d → d.problem ≠ .unknownType key) :
    parse ⟨registry.resolvers ++ more⟩ settings source = parse registry settings source := by
  have hfind : ∀ key resolver, registry.find? key = some resolver →
      Registry.find? ⟨registry.resolvers ++ more⟩ key = some resolver := by
    intro key resolver hfind
    rw [Registry.find?] at hfind ⊢
    rw [List.find?_append, hfind]
    rfl
  have hresolves : ResolvesUnless (fun d => ∃ key, d.problem = .unknownType key) registry
      ⟨registry.resolvers ++ more⟩ settings := by
    intro word s
    obtain hsame | ⟨key, hfails⟩ :=
      Registry.resolve_eq_or_of_find? settings.defaultSpace word hfind
    · rw [hsame]
      exact .refl _
    · rw [hfails]
      exact Or.inr ⟨_, s, rfl, key, rfl⟩
  obtain hsame | ⟨d, text, herror, key, hproblem⟩ := parse_eq_or_of_resolvesUnless hresolves source
  · exact hsame.symm
  · exact absurd hproblem (hknown (d.withSource settings.sourceName text) key herror)

/-- The order of registration matters only through first claims. Resolvers that are added behind all
others change nothing, unless a type was unknown without them. Two neighbours that claim no common
key can be swapped. The name of a built-in type is read without asking a resolver, so what the
resolvers say about keys matters only as far as other words name these keys. -/
theorem parse_depends_on_first_claims (registry : Registry) (settings : Settings)
    (source : Source) :
    (∀ more : List Resolver,
      (∀ d key, parse registry settings source = .error d → d.problem ≠ .unknownType key) →
      parse ⟨registry.resolvers ++ more⟩ settings source = parse registry settings source) ∧
    (∀ (before after : List Resolver) (first second : Resolver),
      registry.resolvers = before ++ first :: second :: after →
      (∀ key, first.claims key = true → second.claims key = false) →
      parse ⟨before ++ second :: first :: after⟩ settings source =
        parse registry settings source) ∧
    (∀ (word : Located String) (builtin : Builtin), Builtin.ofName? word.value = some builtin →
      registry.resolve settings.defaultSpace word = builtin.read) ∧
    ∀ registry' : Registry,
      (∀ word key, Builtin.ofName? word = none →
        Key.parse word settings.defaultSpace = .ok key →
        registry'.find? key = registry.find? key) →
      parse registry' settings source = parse registry settings source := by
  refine ⟨?_, ?_, ?_, ?_⟩
  · intro more hknown
    exact parse_append more hknown
  · intro before after first second hresolvers hdisjoint
    apply parse_congr
    intro word key _ _
    rw [Registry.find?_swap hdisjoint, Registry.find?, Registry.find?, hresolvers]
  · intro word builtin hname
    exact Registry.resolve_of_ofName? hname registry settings.defaultSpace
  · intro registry' hsame
    exact parse_congr hsame source

/-- A resolver that claims every key, added behind two others or on its own, and the two others
swapped, for a text with a built-in type and a type of each of the two. -/
theorem parse_with_greedy_resolver_last :
    let greedy : Resolver := .custom twoTokens
    let declared : Resolver := .declared "my" (.ofList [("thing", .exactly 1)])
    let source := Source.ofString "r { a bool; b my:thing x; c entity player; }"
    (parse ⟨[declared, .minecraft]⟩ .standard source).isOk = true ∧
      parse ⟨[declared, .minecraft, greedy]⟩ .standard source =
        parse ⟨[declared, .minecraft]⟩ .standard source ∧
      parse ⟨[.minecraft, declared]⟩ .standard source =
        parse ⟨[declared, .minecraft]⟩ .standard source ∧
      Registry.resolve ⟨[greedy]⟩ "minecraft" ⟨"bool", ⟨6, 10, 1⟩⟩ = Builtin.read .bool := by
  intro greedy declared source
  have hparses : (parse ⟨[declared, .minecraft]⟩ .standard source).isOk = true := by
    decide +kernel
  obtain ⟨happend, hswap, -, -⟩ :=
    parse_depends_on_first_claims ⟨[declared, .minecraft]⟩ .standard source
  obtain ⟨-, -, hbuiltin, -⟩ := parse_depends_on_first_claims ⟨[greedy]⟩ .standard source
  refine ⟨hparses, happend [greedy] ?_, hswap [] [] declared .minecraft rfl ?_,
    hbuiltin _ .bool rfl⟩
  · intro d key herror
    rw [herror] at hparses
    contradiction
  · intro key hclaims
    have hspace : key.space = "my" := by simpa using (Bool.and_eq_true_iff.mp hclaims).1
    rw [Resolver.claims, hspace]
    rfl

end Tree

end CommandTree
