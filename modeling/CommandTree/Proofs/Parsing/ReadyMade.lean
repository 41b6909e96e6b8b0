import CommandTree.Proofs.Grammar.TypeWords

/-!
# What ready-made resolvers read

A ready-made resolver that claims a key reads the parameters of one of four forms, and where it
fails it fails with a diagnostic. `Resolver.Reads` lists the forms. The registry passes such a
diagnostic on, so behind the name of an extension type the parser runs one of these readings and
nothing else.
-/

set_option autoImplicit false

namespace CommandTree

/-- A bound that is refused is refused at its own place. -/
theorem NumberKind.exists_of_bound_eq_error {kind : NumberKind} {word : Located String}
    {d : Diagnostic} (h : kind.bound word = .error d) :
    ∃ problem : Problem, d = .atSpan problem word.span ∧ problem.kind = .typing ∧
      problem.related = [] := by
  unfold bound at h
  repeat' split at h
  all_goals first
    | contradiction
    | exact ⟨_, (Except.error.inj h).symm, rfl, rfl⟩

/-- Words are taken one at a time as long as there is one. -/
theorem ParamRule.readTrailing_eq (read : List String) :
    (readTrailing read : Reading Diagnostic (List String)) = (do
      match ← Reading.nextWord? with
      | Option.none => pure read.reverse
      | some word => readTrailing (word.value :: read) : Reading Diagnostic (List String)) := by
  funext s
  rw [Reading.bind_apply, readTrailing, Reading.nextWord?]
  split <;> rename_i hword <;> simp only [hword]
  rfl

/-- The readings that ready-made resolvers use for the keys that they claim. -/
inductive Resolver.Reads : Resolver → Key → Reading Diagnostic ArgType → Prop where
  /-- A declared type takes the words that its rule asks for. -/
  | declared {space : String} {types : SortedTable ParamRule} {key : Key} {rule : ParamRule} :
    types.lookup key.name = some rule →
      Reads (.declared space types) key (do
        let payload ← rule.consume key
        pure (.ofKey key payload))
  /-- The type that selects entities. -/
  | entity {key : Key} : key.name = Selection.entityName → Reads .minecraft key (readEntity key)
  /-- The type that selects holders of scores. -/
  | scoreHolder {key : Key} :
    key.name = Selection.scoreHolderName → Reads .minecraft key (readScoreHolder key)
  /-- A built-in type under its other name. -/
  | brigadier {key : Key} {builtin : Builtin} :
    Builtin.ofName? key.name = some builtin → Reads .brigadier key builtin.read

/-- A ready-made resolver that claims a key uses one of the listed readings. -/
theorem Resolver.exists_reads {resolver : Resolver} {key : Key}
    (hready : resolver.isReadyMade = true) (hclaims : resolver.claims key = true) :
    ∃ m, resolver.Reads key m ∧ resolver.read key = Reading.mapError .diagnosed m := by
  cases resolver with
  | custom => simp [isReadyMade] at hready
  | declared space types =>
    obtain ⟨rule, hrule⟩ := Option.isSome_iff_exists.mp (Bool.and_eq_true_iff.mp hclaims).2
    exact ⟨_, .declared hrule, by rw [read, readDeclared, hrule]⟩
  | minecraft =>
    by_cases hentity : key.name = Selection.entityName
    · exact ⟨_, .entity hentity, by rw [read, readMinecraft, if_pos hentity]⟩
    · have hname := Bool.or_eq_true_iff.mp (Bool.and_eq_true_iff.mp hclaims).2
      have hholder : key.name = Selection.scoreHolderName := by simpa [hentity] using hname
      exact ⟨_, .scoreHolder hholder,
        by rw [read, readMinecraft, if_neg hentity, if_pos hholder]⟩
  | brigadier =>
    obtain ⟨builtin, hbuiltin⟩ := Option.isSome_iff_exists.mp (Bool.and_eq_true_iff.mp hclaims).2
    exact ⟨_, .brigadier hbuiltin, by rw [read, readBrigadier, hbuiltin]⟩

namespace Registry

variable {registry : Registry}

/-- Diagnosing a failure that is a diagnostic already does not change it. -/
theorem mapError_diagnose {α : Type} (word : Located String) (key : Key) (resolver : Resolver)
    (m : Reading Diagnostic α) :
    Reading.mapError (diagnose word key resolver) (Reading.mapError .diagnosed m) = m := by
  funext s
  unfold Reading.mapError
  rcases m s with ⟨d | a, s'⟩ <;> rfl

/-- The readings that the word in front of the parameters of a type selects, each with the words
that declare a type behind it. -/
inductive ResolvesTo (registry : Registry) (defaultSpace : String) (word : Located String) :
    Reading Diagnostic ArgType → Prop where
  /-- The parameters of a built-in type. -/
  | builtin (builtin : Builtin) :
    (∀ words type, registry.Types defaultSpace (word.value :: words) (some type) ↔
      builtin.Declares words type) →
    ResolvesTo registry defaultSpace word builtin.read
  /-- What a resolver reads for its key. -/
  | reads {resolver : Resolver} {key : Key} {m : Reading Diagnostic ArgType} :
    resolver.Reads key m →
    (∀ words type, registry.Types defaultSpace (word.value :: words) (some type) ↔
      resolver.Declares key words type) →
    ResolvesTo registry defaultSpace word m
  /-- Nothing, because no type has the word as its name. -/
  | refuses (problem : Problem) : problem.kind = .typing → problem.related = [] →
    (∀ words type, ¬ registry.Types defaultSpace (word.value :: words) (some type)) →
    ResolvesTo registry defaultSpace word (Reading.fail (.atSpan problem word.span))

/-- A registry of ready-made resolvers reads every type in one of these ways. -/
theorem resolvesTo (hready : registry.ReadyMade) (defaultSpace : String) (word : Located String) :
    registry.ResolvesTo defaultSpace word (registry.resolve defaultSpace word) := by
  unfold resolve
  cases hname : Builtin.ofName? word.value with
  | some builtin =>
    refine .builtin builtin fun words type => ?_
    rw [← Builtin.name_of_ofName? hname, types_builtin_iff]
  | none =>
    have htypes := fun words => @types_extension_iff registry defaultSpace word.value words hname
    cases hkey : Key.parse word.value defaultSpace with
    | error e =>
      refine .refuses (.invalidKey word.value e) rfl rfl fun words type h => ?_
      obtain ⟨key, resolver, hkey', -⟩ := (htypes words type).mp h
      rw [hkey] at hkey'
      contradiction
    | ok key =>
      cases hfind : registry.find? key with
      | none =>
        simp only [hfind]
        refine .refuses (.unknownType key) rfl rfl fun words type h => ?_
        obtain ⟨key', resolver, hkey', hfind', -⟩ := (htypes words type).mp h
        cases hkey.symm.trans hkey'
        rw [hfind] at hfind'
        contradiction
      | some resolver =>
        have hclaims := List.find?_some hfind
        have hmade := hready resolver (List.mem_of_find?_eq_some hfind)
        obtain ⟨m, hreads, hread⟩ := Resolver.exists_reads hmade hclaims
        simp only [hfind, hread, mapError_diagnose]
        refine .reads hreads fun words type => ?_
        rw [htypes]
        constructor
        · rintro ⟨key', resolver', hkey', hfind', hdeclares⟩
          cases hkey.symm.trans hkey'
          cases hfind.symm.trans hfind'
          exact hdeclares
        · intro hdeclares
          exact ⟨key, resolver, hkey, hfind, hdeclares⟩

end Registry

end CommandTree
