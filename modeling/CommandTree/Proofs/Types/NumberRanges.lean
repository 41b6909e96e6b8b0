import CommandTree.Proofs.Format.Formatting

/-!
# Ranges of numbers in parsed trees

Two bounds that are written are compared, and a single one is not: the greatest number of the kind
takes the place of the upper bound, whatever the lower one is. No integer is above that number and
no finite number is, so the range is inverted in one case only, namely where a single bound is
written and stands for an infinite number. The word may be a name of infinity or a literal that
overflows.

The binary kinds have a text that is not a number, which is no bound. The values of a kind are all
numbers, so what has to be shown is that no word with such a text is among the bounds that were
written.
-/

set_option autoImplicit false

namespace CommandTree

/-- Only the positive infinity is above the greatest finite number of a format. -/
theorem Binary.greatest_lt_iff {f : Format} (hinfinity : 0 < f.infinity) (b : Binary f) :
    (Binary.greatest f).place < b.place ↔ b = Binary.infinite f false := by
  have hgreatest : (Binary.greatest f).place = ((f.infinity - 1 : Nat) : Int) := rfl
  rw [hgreatest]
  constructor
  · intro h
    obtain ⟨negative, index, hle⟩ := b
    cases negative with
    | true =>
      have hplace : (Binary.mk true index hle : Binary f).place = -(index : Int) := rfl
      omega
    | false =>
      have hplace : (Binary.mk false index hle : Binary f).place = (index : Int) := rfl
      obtain rfl : index = f.infinity := by omega
      rfl
  · intro h
    have hplace : b.place = (f.infinity : Int) := by
      rw [h]
      rfl
    omega

namespace NumberKind

variable {kind : NumberKind} {words : List String} {lower upper : kind.Value}

/-- The value is above all finite numbers of its kind. Integers have no such value. -/
def IsInfinity : (kind : NumberKind) → kind.Value → Prop
  | integer, _ | long, _ => False
  | float, b => b = Binary.infinite Format.single false
  | double, b => b = Binary.infinite Format.double false

/-- Only infinity is above the greatest number of a kind. -/
theorem greatest_lt_iff (value : kind.Value) :
    kind.place kind.greatest < kind.place value ↔ kind.IsInfinity value := by
  have hwhole : ∀ {bits : Nat} (w : Whole bits), ¬ (Whole.greatest bits).value < w.value := by
    intro bits w hlt
    have hgreatest : (Whole.greatest bits).value = (Whole.limit bits : Int) - 1 := rfl
    have hupper := w.upper
    omega
  cases kind with
  | integer => exact iff_of_false (hwhole value) id
  | long => exact iff_of_false (hwhole value) id
  | float => exact Binary.greatest_lt_iff (by decide) value
  | double => exact Binary.greatest_lt_iff (by decide) value

/-- A word that stands for a bound is never read as something that is no number. -/
theorem IsBound.read_ne {word : String} (h : kind.IsBound word lower) :
    kind.read word ≠ .ok none := by
  cases h with
  | least => cases kind <;> exact nofun
  | greatest => cases kind <;> exact nofun
  | literal hread =>
    rw [hread]
    exact nofun

/-- What holds of a pair of bounds and the words they were written with. -/
structure RangeOf (kind : NumberKind) (words : List String) (lower upper : kind.Value) : Prop where
  /-- There are at most two words. -/
  length_le : words.length ≤ 2
  /-- Every word stands for a number. -/
  numbers : ∀ word ∈ words, kind.read word ≠ .ok none
  /-- The range is inverted only if a single word stands for infinity. -/
  inverted_iff : kind.place upper < kind.place lower ↔ words.length = 1 ∧ kind.IsInfinity lower
  /-- An omitted bound is the extreme of the kind. -/
  omitted : (words = [] → lower = kind.least) ∧ (words.length ≤ 1 → upper = kind.greatest)

/-- Bounds that words declare are a range that was written with these words. -/
theorem DeclaresBounds.rangeOf (h : kind.DeclaresBounds words (lower, upper)) :
    kind.RangeOf words lower upper := by
  match words, h with
  | [], h =>
    obtain ⟨rfl, rfl⟩ := Prod.mk.inj h
    refine ⟨by decide, nofun, iff_of_false ?_ nofun, fun _ => rfl, fun _ => rfl⟩
    cases kind <;> decide
  | [word], h =>
    obtain ⟨hword, hupper⟩ := h
    obtain rfl : upper = kind.greatest := hupper
    refine ⟨by simp, ?_, ?_, nofun, fun _ => rfl⟩
    · intro word' hmem
      rw [List.mem_singleton.mp hmem]
      exact hword.read_ne
    · rw [greatest_lt_iff]
      exact (and_iff_right rfl).symm
  | [word, word'], h =>
    obtain ⟨hword, hword', hle⟩ := h
    refine ⟨by simp, List.forall_mem_cons.mpr ⟨hword.read_ne, ?_⟩,
      iff_of_false (Int.not_lt.mpr hle) nofun, nofun, nofun⟩
    intro word'' hmem
    rw [List.mem_singleton.mp hmem]
    exact hword'.read_ne

end NumberKind

/-- If the words declare the type of a number, they are a name and the words of a range. -/
def ArgType.RangeFrom (words : List String) : ArgType → Prop
  | .number kind lower upper =>
    ∃ name bounds, words = name :: bounds ∧ kind.RangeOf bounds lower upper
  | _ => True

/-- The range of a number is in order, or it starts at infinity and has no upper bound of its own.
-/
def ArgType.InOrder : ArgType → Prop
  | .number kind lower upper =>
    kind.place lower ≤ kind.place upper ∨ (kind.IsInfinity lower ∧ upper = kind.greatest)
  | _ => True

/-- The range of a number that words declare is in order, or starts at infinity. -/
theorem ArgType.RangeFrom.inOrder {words : List String} {type : ArgType}
    (h : type.RangeFrom words) : type.InOrder := by
  cases type with
  | number kind lower upper =>
    obtain ⟨name, bounds, -, hrange⟩ := h
    by_cases hlt : kind.place upper < kind.place lower
    · obtain ⟨hlength, hinfinity⟩ := hrange.inverted_iff.mp hlt
      exact Or.inr ⟨hinfinity, hrange.omitted.2 (Nat.le_of_eq hlength)⟩
    · exact Or.inl (Int.not_lt.mp hlt)
  | _ => trivial

/-! ## All ways to declare a number -/

/-- Only the built-in types are numbers, under their own names or under the other ones. -/
theorem Builtin.Declares.rangeFrom {builtin : Builtin} {words : List String} {type : ArgType}
    (h : builtin.Declares words type) (name : String) : type.RangeFrom (name :: words) := by
  cases h with
  | bool => trivial
  | string => trivial
  | number hbounds => exact ⟨name, _, rfl, hbounds.rangeOf⟩

/-- Words that declare the type of a number are a name and the words of a range. -/
theorem Registry.Types.rangeFrom {registry : Registry} {defaultSpace : String}
    {words : List String} {type : ArgType}
    (h : registry.Types defaultSpace words (some type)) : type.RangeFrom words := by
  cases h with
  | builtin hdeclares => exact hdeclares.rangeFrom _
  | extension _ _ _ hdeclares =>
    cases hdeclares with
    | brigadier _ hbuiltin => exact hbuiltin.rangeFrom _
    | _ => trivial

namespace Phrase

variable {registry : Registry} {defaultSpace : String}

mutual

/-- The types in a tree are each related to the words that declare them in a phrase. -/
def EachType (P : (words : List String) → ArgType → Prop) : Phrase → Tree → Prop
  | leaf _ words, .node _ type _ => ∀ a, type = some a → P words a
  | scope _ words inner, .node _ type children =>
    (∀ a, type = some a → P words a) ∧ EachTypeAll P inner children

/-- The same for the trees of a list and the phrases of another. -/
def EachTypeAll (P : (words : List String) → ArgType → Prop) : List Phrase → List Tree → Prop
  | p :: ps, t :: ts => EachType P p t ∧ EachTypeAll P ps ts
  | _, _ => True

end

section

variable {P : (words : List String) → ArgType → Prop}

mutual

/-- In a tree that a phrase denotes each type is declared by the words of its node. -/
theorem Denotes.eachType {p : Phrase} {t : Tree} (h : p.Denotes registry defaultSpace t)
    (hP : ∀ words a, registry.Types defaultSpace words (some a) → P words a) :
    p.EachType P t := by
  obtain ⟨name, type, children⟩ := t
  cases p with
  | leaf _ words =>
    intro a ha
    apply hP
    rw [← ha]
    exact h.2.1
  | scope _ words inner =>
    refine ⟨?_, DenotesAll.eachTypeAll h.2.2 hP⟩
    intro a ha
    apply hP
    rw [← ha]
    exact h.2.1

/-- In trees that phrases denote each type is declared by the words of its node. -/
theorem DenotesAll.eachTypeAll {ps : List Phrase} {ts : List Tree}
    (h : DenotesAll registry defaultSpace ps ts)
    (hP : ∀ words a, registry.Types defaultSpace words (some a) → P words a) :
    EachTypeAll P ps ts := by
  cases ps with
  | nil => cases ts <;> trivial
  | cons p ps =>
    cases ts with
    | nil => trivial
    | cons t ts => exact ⟨h.1.eachType hP, DenotesAll.eachTypeAll h.2 hP⟩

end

end

end Phrase

/-! ## Parsed trees -/

namespace Tree

variable {registry : Registry} {settings : Settings}

/-- In a parsed tree every range of a number is in order, or it starts at infinity and has no upper
bound of its own. The words that declare the range stand for numbers, and the range is inverted
exactly where one word is written and stands for infinity. -/
theorem ranges_of_parse (hready : registry.ReadyMade) {source : Source} {t : Tree}
    (h : parse registry settings source = .ok t) :
    t.EveryType ArgType.InOrder ∧
      ∃ p : Phrase, p.Derives registry settings (.ofSource source) t ∧
        p.EachType (fun words type => type.RangeFrom words) t := by
  obtain ⟨p, hp⟩ := (parse_eq_ok_iff_derives hready).mp h
  refine ⟨?_, p, hp, ?_⟩
  · apply hp.denotes.everyType.mono
    intro type hwords
    exact hwords.rangeFrom.inOrder
  · apply hp.denotes.eachType
    intro words type htypes
    exact htypes.rangeFrom

/-- A text with a lone infinite bound, which overflows, and an ordered pair of bounds under the
other name of a built-in type. -/
theorem ranges_with_overflow :
    let registry : Registry := ⟨[.brigadier]⟩
    ∃ t, parse registry .standard
        (.ofString "r { a double 1e999; b brigadier:integer -3 max; }") = .ok t ∧
      t.children.map type = [
        some (.number .double (Binary.infinite _ false) (Binary.greatest _)),
        some (.number .integer ⟨-3, by decide, by decide⟩ (Whole.greatest 32))] ∧
      t.EveryType ArgType.InOrder := by
  intro registry
  have hready : registry.ReadyMade := by simp [registry, Registry.ReadyMade, Resolver.isReadyMade]
  have htypes : ((parse registry .standard
      (.ofString "r { a double 1e999; b brigadier:integer -3 max; }")).toOption.map
        fun t => t.children.map type) = some [
      some (.number .double (Binary.infinite _ false) (Binary.greatest _)),
      some (.number .integer ⟨-3, by decide, by decide⟩ (Whole.greatest 32))] := by
    decide +kernel
  cases hparse : parse registry .standard
      (.ofString "r { a double 1e999; b brigadier:integer -3 max; }") with
  | error d =>
    rw [hparse] at htypes
    contradiction
  | ok t =>
    rw [hparse] at htypes
    obtain ⟨hordered, -⟩ := ranges_of_parse hready hparse
    exact ⟨t, rfl, Option.some.inj htypes, hordered⟩

/-- A single bound is not compared with the extreme that takes the place of the other. -/
theorem lone_infinity_is_inverted :
    ∃ t, parse .empty .standard (.ofString "r { a float inf; }") = .ok t ∧
      ¬ t.EveryType fun type => ∀ (kind : NumberKind) (lower upper : kind.Value),
        type = .number kind lower upper → kind.place lower ≤ kind.place upper := by
  have htypes : ((parse .empty .standard (.ofString "r { a float inf; }")).toOption.map
      fun t => t.children.map type) =
        some [some (.number .float (Binary.infinite _ false) (Binary.greatest _))] := by
    decide +kernel
  cases hparse : parse .empty .standard (.ofString "r { a float inf; }") with
  | error d =>
    rw [hparse] at htypes
    contradiction
  | ok t =>
    rw [hparse] at htypes
    refine ⟨t, rfl, ?_⟩
    intro hordered
    obtain ⟨name, rootType, children⟩ := t
    obtain ⟨child, rest, rfl⟩ : ∃ child rest, children = child :: rest := by
      cases children with
      | nil => simp [Except.toOption, children] at htypes
      | cons child rest => exact ⟨child, rest, rfl⟩
    obtain ⟨name', childType, grandchildren⟩ := child
    obtain ⟨rfl, -⟩ := List.cons.inj (Option.some.inj htypes)
    have hle := hordered.2.1.1 _ rfl .float _ _ rfl
    have hlt : NumberKind.place .float (Binary.greatest _) <
        NumberKind.place .float (Binary.infinite _ false) := by decide
    omega

end Tree

end CommandTree
