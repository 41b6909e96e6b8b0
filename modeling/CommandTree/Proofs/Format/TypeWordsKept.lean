import CommandTree.Proofs.Grammar.TypeReadings
import CommandTree.Proofs.Number.NumberText

/-!
# Types are declared by their own words

The words of a type declare the type again. For a built-in type this is a matter of its bounds: one
that goes without saying is left out, and any other is written as a text that is read back. For an
extension type it depends on the registry, because the first resolver that claims the key of the
type has to take exactly its payload. A type that words declared in the first place passes that
test, however it was spelled, since the spelling only matters for finding the key.
-/

set_option autoImplicit false

namespace CommandTree

/-! ## Bounds -/

/-- An integer of a width is known by its value. -/
theorem Whole.eq_of_value_eq {bits : Nat} {a b : Whole bits} (h : a.value = b.value) : a = b := by
  cases a
  cases b
  cases h
  rfl

/-- Only the two zeros share a place. -/
theorem Binary.eq_of_place_eq {f : Format} {a b : Binary f} (h : a.place = b.place)
    (hb : b.place ≠ 0) : a = b := by
  obtain ⟨negative, index, hle⟩ := a
  obtain ⟨negative', index', hle'⟩ := b
  have hsame : negative = negative' ∧ index = index' := by
    unfold place at h hb
    cases negative <;> cases negative' <;>
      simp only [Bool.false_eq_true, if_false, if_true] at h hb
    · exact ⟨rfl, by omega⟩
    · omega
    · omega
    · exact ⟨rfl, by omega⟩
  obtain ⟨rfl, rfl⟩ := hsame
  rfl

namespace NumberKind

variable {kind : NumberKind}

/-- Values that are the same number are equal unless they are zeros, which may differ in sign. -/
theorem eq_of_same {value value' : kind.Value} (h : kind.same value value' = true)
    (hne : kind.place value' ≠ 0) : value = value' := by
  have hplace : kind.place value = kind.place value' := by simpa [same] using h
  cases kind with
  | integer => exact Whole.eq_of_value_eq hplace
  | long => exact Whole.eq_of_value_eq hplace
  | float => exact Binary.eq_of_place_eq hplace hne
  | double => exact Binary.eq_of_place_eq hplace hne

/-- Only the least value of a kind is the same number as the least one. -/
theorem eq_least_of_same {value : kind.Value} (h : kind.same value kind.least = true) :
    value = kind.least :=
  eq_of_same h (by cases kind <;> decide)

/-- Only the greatest value of a kind is the same number as the greatest one. -/
theorem eq_greatest_of_same {value : kind.Value} (h : kind.same value kind.greatest = true) :
    value = kind.greatest :=
  eq_of_same h (by cases kind <;> decide)

/-- The text of a number stands for that number as a bound. -/
theorem isBound_text (kind : NumberKind) (value : kind.Value) :
    kind.IsBound (kind.text value) value := .literal (kind.read_text value)

/-- A pair of bounds that words can declare: the upper one is left out or the lower one is not above
it. -/
def Ordered (kind : NumberKind) (lower upper : kind.Value) : Prop :=
  kind.same upper kind.greatest = true ∨ kind.place lower ≤ kind.place upper

/-- Bounds that words declare can be declared, so they are in order unless the upper one is left
out. -/
theorem DeclaresBounds.ordered {words : List String} {bounds : kind.Value × kind.Value}
    (h : kind.DeclaresBounds words bounds) : kind.Ordered bounds.1 bounds.2 := by
  unfold DeclaresBounds at h
  split at h
  · rw [h]
    exact Or.inl (beq_self_eq_true _)
  · rw [h.2]
    exact Or.inl (beq_self_eq_true _)
  · exact Or.inr h.2.2
  · contradiction

/-- The words for a pair of bounds declare the pair. -/
theorem declaresBounds_boundWords {lower upper : kind.Value} (h : kind.Ordered lower upper) :
    kind.DeclaresBounds (ArgType.boundWords kind lower upper) (lower, upper) := by
  have hlower :
      kind.IsBound (if kind.same lower kind.least then "min" else kind.text lower) lower := by
    by_cases hleast : kind.same lower kind.least = true
    · rw [if_pos hleast, eq_least_of_same hleast]
      exact .least
    · rw [if_neg hleast]
      exact kind.isBound_text lower
  unfold ArgType.boundWords
  by_cases hgreatest : kind.same upper kind.greatest = true
  · obtain rfl := eq_greatest_of_same hgreatest
    by_cases hleast : kind.same lower kind.least = true
    · obtain rfl := eq_least_of_same hleast
      simp [hleast, hgreatest, DeclaresBounds]
    · simp only [hleast, hgreatest] at hlower ⊢
      exact ⟨hlower, rfl⟩
  · have hle : kind.place lower ≤ kind.place upper := h.resolve_left hgreatest
    simp only [hgreatest, Bool.and_false, Bool.false_eq_true, if_false]
    exact ⟨hlower, kind.isBound_text upper, hle⟩

end NumberKind

/-! ## Extension types -/

namespace Key

/-- A text all of whose characters pass a test does not hold a character that fails it. -/
theorem notMem_of_all {p : Char → Bool} {text : String} (h : text.toList.all p = true) {c : Char}
    (hc : p c = false) : c ∉ text.toList := by
  intro hmem
  have hp := List.all_eq_true.mp h c hmem
  rw [hc] at hp
  contradiction

/-- No namespace holds a colon. -/
theorem colon_notMem_space (key : Key) : ':' ∉ key.space.toList :=
  notMem_of_all key.isSpace.2 (by decide)

/-- No name of a key holds a colon. -/
theorem colon_notMem_name (key : Key) : ':' ∉ key.name.toList :=
  notMem_of_all key.isName.2 (by decide)

/-- The text of a key is its namespace and its name with a colon between them. -/
theorem toList_text (key : Key) :
    key.text.toList = key.space.toList ++ ':' :: key.name.toList := by
  simp [text]

/-- The written form of a key is read back as the key, whatever the default namespace is. -/
theorem parse_text (key : Key) (default : String) : parse key.text default = .ok key := by
  rw [text, parse_append key.colon_notMem_space key.colon_notMem_name]
  exact (make_eq_ok_iff _ _ _).mpr ⟨rfl, rfl⟩

end Key

namespace Builtin

/-- No name of a built-in type has a colon. -/
theorem ofName?_of_colon {word : String} (h : ':' ∈ word.toList) : ofName? word = none := by
  cases hname : ofName? word with
  | none => rfl
  | some builtin =>
    have hnone : ':' ∉ builtin.name.toList := by
      rcases builtin with _ | _ | kind
      · decide
      · decide
      · cases kind <;> decide
    rw [name_of_ofName? hname] at hnone
    contradiction

/-- The text of a key is not the name of a built-in type, since it holds a colon. -/
theorem ofName?_text (key : Key) : ofName? key.text = none :=
  ofName?_of_colon (by rw [Key.toList_text]; simp)

/-- A type that the parameters of a built-in type declare is declared by its own words again. -/
theorem Declares.words_eq {builtin : Builtin} {words : List String} {type : ArgType}
    (h : builtin.Declares words type) :
    ∃ builtin' words', type.words = Builtin.name builtin' :: words' ∧
      Builtin.Declares builtin' words' type := by
  cases h with
  | bool => exact ⟨.bool, [], rfl, .bool⟩
  | string mode => exact ⟨.string, [mode.keyword], rfl, .string mode⟩
  | @number kind words lower upper hbounds =>
    have hwords := NumberKind.declaresBounds_boundWords hbounds.ordered
    exact ⟨.number kind, _, rfl, .number hwords⟩

end Builtin

/-- A resolver that is ready-made gives an extension type the key it was asked for and the words
that it took. -/
theorem Resolver.Declares.extension {resolver : Resolver} {key : Key} {words : List String}
    {space name : String} {payload : List String}
    (h : resolver.Declares key words (.extension space name payload)) :
    key.space = space ∧ key.name = name ∧ words = payload := by
  cases h with
  | declared => exact ⟨rfl, rfl, rfl⟩
  | entity => exact ⟨rfl, rfl, rfl⟩
  | scoreHolder => exact ⟨rfl, rfl, rfl⟩
  | scoreHolderFlag => exact ⟨rfl, rfl, rfl⟩
  | brigadier _ hdeclares => contradiction

namespace Registry

variable {registry : Registry} {defaultSpace : String}

/-- The words of an extension type declare it if its payload is what the resolver allows. -/
theorem types_extension_words {key : Key} {resolver : Resolver} {payload : List String}
    (hfind : registry.find? key = some resolver)
    (hdeclares : resolver.Declares key payload (.ofKey key payload)) :
    registry.Types defaultSpace (ArgType.ofKey key payload).words (some (.ofKey key payload)) :=
  .extension (Builtin.ofName?_text key) (key.parse_text defaultSpace) hfind hdeclares

/-- A type that words declared is declared by its own words, whatever the default namespace is. -/
theorem Types.words {defaultSpace' : String} {words : List String} {type : ArgType}
    (h : registry.Types defaultSpace words (some type)) :
    registry.Types defaultSpace' type.words (some type) := by
  have hbuiltin : ∀ {builtin : Builtin} {words : List String}, builtin.Declares words type →
      registry.Types defaultSpace' type.words (some type) := by
    intro builtin words hdeclares
    obtain ⟨builtin', words', heq, hdeclares'⟩ := hdeclares.words_eq
    rw [heq]
    exact .builtin hdeclares'
  cases h with
  | builtin hdeclares => exact hbuiltin hdeclares
  | @extension word key resolver words type hnone hkey hfind hdeclares =>
    cases type with
    | extension space name payload =>
      obtain ⟨rfl, rfl, rfl⟩ := hdeclares.extension
      exact types_extension_words hfind hdeclares
    | bool => exact hbuiltin .bool
    | string mode => exact hbuiltin (.string mode)
    | number kind lower upper =>
      cases hdeclares with
      | brigadier _ hdeclares => exact hbuiltin hdeclares

end Registry

end CommandTree
