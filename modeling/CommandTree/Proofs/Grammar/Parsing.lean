import CommandTree.Proofs.Grammar.Completeness

/-!
# The parser and its grammar

A command file is parsed exactly when it is derived, and then its tree is the one that its
derivation denotes. This holds for every source, every settings and every registry of ready-made
resolvers.

A word that names a built-in type is never taken as a key, not even where a resolver claims that key
and the words behind the name would suit it. `builtin_name_is_no_key` shows what comes of that.
-/

set_option autoImplicit false

namespace CommandTree.Tree

variable {registry : Registry} {settings : Settings}

/-- A source is parsed exactly if its tokens are read as a whole tree. -/
theorem parse_eq_ok_iff_readWhole {source : Source} {t : Tree} :
    parse registry settings source = .ok t ↔
      ∃ s', readWhole registry settings (.ofSource source) = .ok (t, s') := by
  unfold parse
  rcases readWhole registry settings (.ofSource source) with stopped | ⟨root, s'⟩ <;> simp

/-- A source is parsed exactly when it is derived. -/
theorem parse_eq_ok_iff_derives (hready : registry.ReadyMade) {source : Source} {t : Tree} :
    parse registry settings source = .ok t ↔
      ∃ p : Phrase, p.Derives registry settings (.ofSource source) t := by
  rw [parse_eq_ok_iff_readWhole]
  constructor
  · rintro ⟨s', h⟩
    exact derives_of_readWhole hready h
  · rintro ⟨p, h⟩
    exact readWhole_of_derives hready h

/-- The parser accepts exactly what its grammar derives, a command file has one derivation at most,
and the tree that the parser returns is the one that the derivation denotes. -/
theorem parse_iff_unique_derivation (hready : registry.ReadyMade) (source : Source) :
    (∀ t, parse registry settings source = .ok t ↔
      ∃ p : Phrase, p.Derives registry settings (.ofSource source) t) ∧
    (∀ (p p' : Phrase) (t t' : Tree), p.Derives registry settings (.ofSource source) t →
      p'.Derives registry settings (.ofSource source) t' → p = p' ∧ t = t') := by
  refine ⟨fun t => parse_eq_ok_iff_derives hready, ?_⟩
  intro p p' t t' h h'
  exact h.unique h'

/-- A text with a type of each ready-made resolver is parsed as the tree that it denotes. -/
theorem parse_every_resolver :
    let registry : Registry :=
      ⟨[.declared "my" (.ofList [("pair", .exactly 2)]), .minecraft, .brigadier]⟩
    registry.ReadyMade ∧
    parse registry .standard
        (.ofString "r { a my:pair x y; b entity player { } c brigadier:bool; }") =
      .ok (.node "r" none [
        .node "a" (some (.extension "my" "pair" ["x", "y"])) [],
        .node "b" (some (.extension "minecraft" "entity" ["player"])) [],
        .node "c" (some .bool) []]) := by
  intro registry
  have hready : registry.ReadyMade := by simp [registry, Registry.ReadyMade, Resolver.isReadyMade]
  refine ⟨hready, ((parse_iff_unique_derivation hready _).1 _).mpr
    ⟨.scope "r" [] [.leaf "a" ["my:pair", "x", "y"], .scope "b" ["entity", "player"] [],
      .leaf "c" ["brigadier:bool"]], ?_⟩⟩
  refine ⟨?_, rfl, ?_, ?_, ?_⟩
  · exact .of_isOk (by decide +kernel) (by decide +kernel)
  · have hpair : registry.Types "minecraft" ["my:pair", "x", "y"]
        (some (.extension "my" "pair" ["x", "y"])) :=
      (Registry.types_extension_iff (by decide) _).mpr
        ⟨⟨"my", "pair", by decide, by decide⟩, _, rfl, rfl, .declared rfl rfl⟩
    have hentity : registry.Types "minecraft" ["entity", "player"]
        (some (.extension "minecraft" "entity" ["player"])) :=
      (Registry.types_extension_iff (by decide) _).mpr
        ⟨⟨"minecraft", "entity", by decide, by decide⟩, _, rfl, rfl, .entity .player rfl⟩
    have hbool : registry.Types "minecraft" ["brigadier:bool"] (some .bool) :=
      (Registry.types_extension_iff (by decide) _).mpr
        ⟨⟨"brigadier", "bool", by decide, by decide⟩, _, rfl, rfl, .brigadier rfl .bool⟩
    exact ⟨rfl, .literal, ⟨rfl, hpair, rfl⟩, ⟨rfl, hentity, trivial⟩, ⟨rfl, hbool, rfl⟩, trivial⟩
  · simp [Distinct, DistinctAll, name]
  · decide

/-- A registry whose only type is named like a built-in type and takes one word. -/
def shadowed : Registry := ⟨[.declared "minecraft" (.ofList [("bool", .exactly 1)])]⟩

/-- In a text that a grammar with such keys would derive, the name of a built-in type stands for the
built-in type: the resolver that claims the key is not asked, and the word that it would take is one
too many. -/
theorem builtin_name_is_no_key :
    (TokenStream.ofSource (.ofString "r { a bool x; }")).Lexes
        (Phrase.scope "r" [] [.leaf "a" ["bool", "x"]]).tokens ∧
      (∃ key resolver, Key.parse "bool" Settings.standard.defaultSpace = .ok key ∧
        shadowed.find? key = some resolver ∧ resolver.isReadyMade = true ∧
        resolver.Declares key ["x"] (.extension "minecraft" "bool" ["x"])) ∧
      ∀ t, parse shadowed .standard (.ofString "r { a bool x; }") ≠ .ok t := by
  refine ⟨.of_isOk (by decide +kernel) (by decide +kernel), ?_, fun t h => ?_⟩
  · exact ⟨⟨"minecraft", "bool", by decide, by decide⟩, _, rfl, rfl, rfl, .declared rfl rfl⟩
  · have hfails : ¬ (parse shadowed .standard (.ofString "r { a bool x; }")).isOk = true := by
      decide +kernel
    rw [h] at hfails
    exact hfails rfl

end CommandTree.Tree
