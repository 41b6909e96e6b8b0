import CommandTree.Registry

/-!
# The words of types

This module says which words declare which type, without a stream they are read from. A built-in
type is declared by its name and its parameters; any other type by a key, which the first resolver
that claims it gives a meaning to, and the words that this resolver takes.

No words declare two types. That is the reason for the order of precedence in `Registry.Types`: a
word that names a built-in type and is a key as well is the name of the built-in type.
-/

set_option autoImplicit false

namespace CommandTree

/-! ## Parameters of built-in types -/

/-- The number that a word stands for as a bound. -/
inductive NumberKind.IsBound (kind : NumberKind) : (word : String) → kind.Value → Prop where
  /-- The least number of the kind. -/
  | least : IsBound kind "min" kind.least
  /-- The greatest number of the kind. -/
  | greatest : IsBound kind "max" kind.greatest
  /-- A literal of the kind that is a number. -/
  | literal {word : String} {value : kind.Value} :
    kind.read word = .ok (some value) → IsBound kind word value

/-- The bounds that words declare, the lower one first. A bound that is left out is the extreme of
the kind, and two bounds stand in their order. -/
def NumberKind.DeclaresBounds (kind : NumberKind) :
    (words : List String) → (bounds : kind.Value × kind.Value) → Prop
  | [], bounds => bounds = (kind.least, kind.greatest)
  | [word], bounds => kind.IsBound word bounds.1 ∧ bounds.2 = kind.greatest
  | [word, word'], bounds =>
    kind.IsBound word bounds.1 ∧ kind.IsBound word' bounds.2 ∧
      kind.place bounds.1 ≤ kind.place bounds.2
  | _, _ => False

/-- The types that the parameters of a built-in type declare. -/
inductive Builtin.Declares : Builtin → (words : List String) → ArgType → Prop where
  /-- Truth values take no parameter. -/
  | bool : Declares .bool [] .bool
  /-- Text takes a mode. -/
  | string (mode : StringMode) : Declares .string [mode.keyword] (.string mode)
  /-- Numbers take up to two bounds. -/
  | number {kind : NumberKind} {words : List String} {lower upper : kind.Value} :
    kind.DeclaresBounds words (lower, upper) →
      Declares (.number kind) words (.number kind lower upper)

/-! ## Parameters of extension types -/

/-- The words that a rule allows. -/
def ParamRule.Allows : ParamRule → (words : List String) → Prop
  | none, words => words = []
  | exactly count, words => words.length = count
  | optional, words => words.length ≤ 1
  | trailing, _ => True

/-- The types that words declare for a key that a resolver claims. A resolver made of functions has
no grammar of its own. -/
inductive Resolver.Declares : Resolver → Key → (words : List String) → ArgType → Prop where
  /-- A declared type takes the words that its rule allows. -/
  | declared {space : String} {types : SortedTable ParamRule} {key : Key} {rule : ParamRule}
      {words : List String} :
    types.lookup key.name = some rule → rule.Allows words →
      Declares (.declared space types) key words (.ofKey key words)
  /-- The type that selects entities takes a selection. -/
  | entity {key : Key} (selection : Selection) :
    key.name = Selection.entityName →
      Declares .minecraft key [selection.keyword] (.ofKey key [selection.keyword])
  /-- The type that selects holders of scores may take nothing. -/
  | scoreHolder {key : Key} :
    key.name = Selection.scoreHolderName → Declares .minecraft key [] (.ofKey key [])
  /-- The type that selects holders of scores may take a flag. -/
  | scoreHolderFlag {key : Key} {flag : String} :
    key.name = Selection.scoreHolderName → flag = "true" ∨ flag = "false" →
      Declares .minecraft key [flag] (.ofKey key [flag])
  /-- The other name of a built-in type takes the same parameters. -/
  | brigadier {key : Key} {builtin : Builtin} {words : List String} {type : ArgType} :
    Builtin.ofName? key.name = some builtin → builtin.Declares words type →
      Declares .brigadier key words type

/-! ## Types -/

/-- The types that words declare, the name of the type first; no words declare a literal. -/
inductive Registry.Types (registry : Registry) (defaultSpace : String) :
    (words : List String) → Option ArgType → Prop where
  /-- A literal has no type. -/
  | literal : Types registry defaultSpace [] none
  /-- A built-in type and its parameters. -/
  | builtin {builtin : Builtin} {words : List String} {type : ArgType} :
    builtin.Declares words type → Types registry defaultSpace (builtin.name :: words) (some type)
  /-- A key that is not the name of a built-in type, and the words that the first resolver that
  claims it takes. -/
  | extension {word : String} {key : Key} {resolver : Resolver} {words : List String}
      {type : ArgType} :
    Builtin.ofName? word = none → Key.parse word defaultSpace = .ok key →
      registry.find? key = some resolver → resolver.Declares key words type →
      Types registry defaultSpace (word :: words) (some type)

/-- Whether a resolver is one of those that are ready-made. -/
def Resolver.isReadyMade : Resolver → Bool
  | declared .. | minecraft | brigadier => true
  | custom _ => false

/-- All resolvers of a registry are ready-made. -/
def Registry.ReadyMade (registry : Registry) : Prop :=
  ∀ resolver ∈ registry.resolvers, resolver.isReadyMade = true

/-! ## The words of each form -/

namespace Builtin

variable {words : List String} {type : ArgType}

/-- A truth value is declared by no words. -/
theorem declares_bool_iff : bool.Declares words type ↔ words = [] ∧ type = .bool := by
  constructor
  · intro h
    cases h
    exact ⟨rfl, rfl⟩
  · rintro ⟨rfl, rfl⟩
    exact .bool

/-- A string is declared by the keyword of its mode. -/
theorem declares_string_iff :
    string.Declares words type ↔
      ∃ mode, words = [StringMode.keyword mode] ∧ type = .string mode := by
  constructor
  · intro h
    cases h with
    | string mode => exact ⟨mode, rfl, rfl⟩
  · rintro ⟨mode, rfl, rfl⟩
    exact .string mode

/-- A number is declared by its bounds. -/
theorem declares_number_iff {kind : NumberKind} :
    (number kind).Declares words type ↔
      ∃ bounds, kind.DeclaresBounds words bounds ∧ type = .number kind bounds.1 bounds.2 := by
  constructor
  · intro h
    cases h with
    | number hbounds => exact ⟨_, hbounds, rfl⟩
  · rintro ⟨bounds, hbounds, rfl⟩
    exact .number hbounds

end Builtin

namespace Resolver

variable {key : Key} {words : List String} {type : ArgType}

/-- A declared type is declared by the words that its rule allows. -/
theorem declares_declared_iff {space : String} {types : SortedTable ParamRule} {rule : ParamRule}
    (hrule : types.lookup key.name = some rule) :
    Declares (.declared space types) key words type ↔
      ∃ payload, (rule.Allows words ∧ payload = words) ∧ type = .ofKey key payload := by
  constructor
  · intro h
    cases h with
    | declared hrule' hallows =>
      cases hrule.symm.trans hrule'
      exact ⟨words, ⟨hallows, rfl⟩, rfl⟩
  · rintro ⟨_, ⟨hallows, rfl⟩, rfl⟩
    exact .declared hrule hallows

/-- An entity is declared by the keyword of a selection. -/
theorem declares_entity_iff (hentity : key.name = Selection.entityName) :
    Declares .minecraft key words type ↔
      ∃ selection, words = [Selection.keyword selection] ∧
        type = .ofKey key [selection.keyword] := by
  have hholder : key.name ≠ Selection.scoreHolderName := by
    rw [hentity]
    decide
  constructor
  · intro h
    cases h with
    | entity selection => exact ⟨selection, rfl, rfl⟩
    | scoreHolder hname => exact absurd hname hholder
    | scoreHolderFlag hname => exact absurd hname hholder
  · rintro ⟨selection, rfl, rfl⟩
    exact .entity selection hentity

/-- A score holder is declared by no word or by one of two words. -/
theorem declares_scoreHolder_iff (hholder : key.name = Selection.scoreHolderName) :
    Declares .minecraft key words type ↔
      (words = [] ∨ words = ["true"] ∨ words = ["false"]) ∧ type = .ofKey key words := by
  have hentity : key.name ≠ Selection.entityName := by
    rw [hholder]
    decide
  constructor
  · intro h
    cases h with
    | entity _ hname => exact absurd hname hentity
    | scoreHolder => exact ⟨Or.inl rfl, rfl⟩
    | scoreHolderFlag _ hflag => simp [hflag]
  · rintro ⟨rfl | rfl | rfl, rfl⟩
    · exact .scoreHolder hholder
    · exact .scoreHolderFlag hholder (Or.inl rfl)
    · exact .scoreHolderFlag hholder (Or.inr rfl)

/-- Another name of a built-in type declares what the built-in type declares. -/
theorem declares_brigadier_iff {builtin : Builtin}
    (hbuiltin : Builtin.ofName? key.name = some builtin) :
    Declares .brigadier key words type ↔ builtin.Declares words type := by
  constructor
  · intro h
    cases h with
    | brigadier hbuiltin' hdeclares =>
      cases hbuiltin.symm.trans hbuiltin'
      exact hdeclares
  · intro h
    exact .brigadier hbuiltin h

end Resolver

/-! ## Words declare one type -/

/-- A built-in type is found by no other word than its name. -/
theorem Builtin.name_of_ofName? {word : String} {builtin : Builtin}
    (h : ofName? word = some builtin) : builtin.name = word := by
  simpa using List.find?_some h

namespace NumberKind

variable {kind : NumberKind} {word : String} {value value' : kind.Value}

/-- The word for the least number is no literal. -/
theorem read_min_ne (kind : NumberKind) (value : kind.Value) :
    kind.read "min" ≠ .ok (some value) := by
  cases kind <;> exact nofun

/-- The word for the greatest number is no literal. -/
theorem read_max_ne (kind : NumberKind) (value : kind.Value) :
    kind.read "max" ≠ .ok (some value) := by
  cases kind <;> exact nofun

/-- `NumberKind.bound` tries the two keywords before it tries literals. No keyword is a literal, so
the order does not matter. -/
theorem isBound_iff (span : Span) :
    kind.IsBound word value ↔ kind.bound ⟨word, span⟩ = .ok value := by
  constructor
  · rintro (_ | _ | hread)
    · rfl
    · rfl
    · have hmin : word ≠ "min" := by
        rintro rfl
        exact read_min_ne kind value hread
      have hmax : word ≠ "max" := by
        rintro rfl
        exact read_max_ne kind value hread
      simp [bound, hmin, hmax, hread]
  · intro h
    unfold bound at h
    split at h
    · rename_i hmin
      obtain rfl : word = "min" := hmin
      cases h
      exact .least
    split at h
    · rename_i hmax
      obtain rfl : word = "max" := hmax
      cases h
      exact .greatest
    split at h
    · simp at h
    · simp at h
    · rename_i hread
      cases h
      exact .literal hread

/-- A word stands for one number as a bound, and for no other. -/
theorem IsBound.iff_eq (h : kind.IsBound word value) :
    kind.IsBound word value' ↔ value' = value := by
  rw [isBound_iff ⟨0, 0, 0⟩] at h ⊢
  rw [h, Except.ok.injEq, eq_comm]

/-- Words declare one pair of bounds at most. -/
theorem DeclaresBounds.unique {words : List String} {bounds bounds' : kind.Value × kind.Value}
    (h : kind.DeclaresBounds words bounds) (h' : kind.DeclaresBounds words bounds') :
    bounds = bounds' := by
  unfold DeclaresBounds at h
  split at h
  · exact h.trans h'.symm
  · exact Prod.ext (h'.1.iff_eq.mp h.1) (h.2.trans h'.2.symm)
  · exact Prod.ext (h'.1.iff_eq.mp h.1) (h'.2.1.iff_eq.mp h.2.1)
  · contradiction

end NumberKind

/-- The parameters of a built-in type declare one type at most. -/
theorem Builtin.Declares.unique {builtin : Builtin} {words : List String} {type type' : ArgType}
    (h : builtin.Declares words type) (h' : builtin.Declares words type') : type = type' := by
  cases h with
  | bool => cases h'; rfl
  | string mode =>
    generalize hwords : [mode.keyword] = words at h'
    cases h' with
    | string mode' =>
      have hmode := congrArg StringMode.ofKeyword? (List.head_eq_of_cons_eq hwords)
      rw [StringMode.ofKeyword?_keyword, StringMode.ofKeyword?_keyword] at hmode
      rw [Option.some.inj hmode]
  | number hbounds =>
    cases h' with
    | number hbounds' =>
      obtain ⟨rfl, rfl⟩ := Prod.mk.inj (hbounds.unique hbounds')
      rfl

/-- Words declare one type for a key at most. -/
theorem Resolver.Declares.unique {resolver : Resolver} {key : Key} {words : List String}
    {type type' : ArgType} (h : resolver.Declares key words type)
    (h' : resolver.Declares key words type') : type = type' := by
  cases h with
  | declared => cases h'; rfl
  | entity selection =>
    generalize hwords : [selection.keyword] = words at h'
    cases h' <;> rfl
  | scoreHolder => cases h'; rfl
  | scoreHolderFlag =>
    generalize hwords : [_] = words at h'
    cases h' <;> simp_all
  | brigadier hname hdeclares =>
    cases h' with
    | brigadier hname' hdeclares' =>
      cases hname.symm.trans hname'
      exact hdeclares.unique hdeclares'

namespace Registry

variable {registry : Registry} {defaultSpace word : String} {words : List String}

/-- Only no words declare that there is no type. -/
theorem types_none_iff : registry.Types defaultSpace words none ↔ words = [] := by
  constructor
  · intro h
    cases h
    rfl
  · rintro rfl
    exact .literal

/-- The name of a built-in type is followed by words that declare its parameters. -/
theorem types_builtin_iff (builtin : Builtin) (type : ArgType) :
    registry.Types defaultSpace (builtin.name :: words) (some type) ↔
      builtin.Declares words type := by
  constructor
  · intro h
    generalize hall : builtin.name :: words = all at h
    cases h with
    | @builtin builtin' words' type hdeclares =>
      obtain ⟨hname, rfl⟩ := List.cons.inj hall
      have hbuiltin := congrArg Builtin.ofName? hname
      rw [Builtin.ofName?_name, Builtin.ofName?_name, Option.some.injEq] at hbuiltin
      exact hbuiltin ▸ hdeclares
    | extension hnone =>
      obtain ⟨rfl, -⟩ := List.cons.inj hall
      rw [Builtin.ofName?_name] at hnone
      contradiction
  · exact .builtin

/-- Any other name of a type is a key that a resolver claims, followed by words that declare its
type. -/
theorem types_extension_iff (hnone : Builtin.ofName? word = none) (type : ArgType) :
    registry.Types defaultSpace (word :: words) (some type) ↔
      ∃ key resolver, Key.parse word defaultSpace = .ok key ∧
        registry.find? key = some resolver ∧ resolver.Declares key words type := by
  constructor
  · intro h
    cases h with
    | builtin =>
      rw [Builtin.ofName?_name] at hnone
      contradiction
    | extension _ hkey hfind hdeclares => exact ⟨_, _, hkey, hfind, hdeclares⟩
  · rintro ⟨key, resolver, hkey, hfind, hdeclares⟩
    exact .extension hnone hkey hfind hdeclares

/-- No words declare two types. -/
theorem Types.unique {type type' : Option ArgType} (h : registry.Types defaultSpace words type)
    (h' : registry.Types defaultSpace words type') : type = type' := by
  cases h with
  | literal =>
    cases h'
    rfl
  | @builtin builtin words type hdeclares =>
    cases type' with
    | none => simp [types_none_iff] at h'
    | some type' => rw [hdeclares.unique ((types_builtin_iff builtin type').mp h')]
  | extension hnone hkey hfind hdeclares =>
    cases type' with
    | none => simp [types_none_iff] at h'
    | some type' =>
      obtain ⟨_, _, hkey', hfind', hdeclares'⟩ := (types_extension_iff hnone type').mp h'
      cases hkey.symm.trans hkey'
      cases hfind.symm.trans hfind'
      rw [hdeclares.unique hdeclares']

end Registry

end CommandTree
