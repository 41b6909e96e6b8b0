import CommandTree.Proofs.Format.TypeWordsKept
import CommandTree.TypesFile

/-!
# First claimants in a types file

A types file stacks three kinds of resolvers: the types of the game that check their parameters, one
resolver for each namespace that it declares, and the other names of the built-in types. They may
claim the same keys, and the first that claims a key has it. `find?_registry` says which one that
is, as a lookup in what the file says about the key.
-/

set_option autoImplicit false

namespace CommandTree

/-! ## Keys -/

namespace Key

/-- A key is known by its text. -/
theorem text_inj {key key' : Key} (h : key.text = key'.text) : key = key' := by
  have hkey := key.parse_text ""
  rw [h, key'.parse_text] at hkey
  exact (Except.ok.inj hkey).symm

/-- The text of a key is that of two parts exactly if the key has these parts. -/
theorem text_eq_iff {key : Key} {space name : String} (hspace : IsSpace space)
    (hname : IsName name) :
    key.text = space ++ ":" ++ name ↔ key.space = space ∧ key.name = name := by
  constructor
  · intro h
    have hkey : key = ⟨space, name, hspace, hname⟩ := text_inj h
    rw [hkey]
    exact ⟨rfl, rfl⟩
  · rintro ⟨rfl, rfl⟩
    rfl

/-- A name without a namespace is read as a key of the default namespace. -/
theorem parse_name (key : Key) : parse key.name key.space = .ok key := by
  rw [parse_of_notMem key.colon_notMem_name]
  exact (make_eq_ok_iff _ _ _).mpr ⟨rfl, rfl⟩

end Key

namespace Resolver

/-- The types of the game are claimed under two keys. -/
theorem claims_minecraft_iff (key : Key) :
    minecraft.claims key = true ↔
      key.text = "minecraft:entity" ∨ key.text = "minecraft:score_holder" := by
  have hspace : Key.IsSpace "minecraft" := by decide
  have hentity : key.text = "minecraft:entity" ↔ key.space = "minecraft" ∧ key.name = "entity" :=
    Key.text_eq_iff hspace (by decide : Key.IsName "entity")
  have hholder : key.text = "minecraft:score_holder" ↔
      key.space = "minecraft" ∧ key.name = "score_holder" :=
    Key.text_eq_iff hspace (by decide : Key.IsName "score_holder")
  rw [hentity, hholder, ← and_or_left]
  simp [claims, Selection.space, Selection.entityName, Selection.scoreHolderName]

/-- Other names of built-in types are claimed under the key with the name of the type. -/
theorem claims_brigadier_iff (key : Key) :
    brigadier.claims key = true ↔
      ∃ builtin, key.text = "brigadier:" ++ Builtin.name builtin := by
  have hspace : Key.IsSpace brigadierSpace := by decide
  have hname : ∀ builtin : Builtin, Key.IsName builtin.name := by
    rintro (_ | _ | kind)
    · decide
    · decide
    · cases kind <;> decide
  have htext : ∀ builtin : Builtin, key.text = "brigadier:" ++ builtin.name ↔
      key.space = brigadierSpace ∧ key.name = builtin.name := fun builtin =>
    Key.text_eq_iff hspace (hname builtin)
  simp only [htext, claims, Bool.and_eq_true, beq_iff_eq, Option.isSome_iff_exists]
  constructor
  · rintro ⟨hspace, builtin, hname⟩
    exact ⟨builtin, hspace, (Builtin.name_of_ofName? hname).symm⟩
  · rintro ⟨builtin, hspace, hname⟩
    exact ⟨hspace, builtin, by rw [hname, Builtin.ofName?_name]⟩

end Resolver

/-! ## Tables -/

namespace SortedTable

variable {β : Type}

/-- An entry of a table is found under its name, since every name occurs once. -/
theorem lookup_of_mem {table : SortedTable β} {name : String} {value : β}
    (h : (name, value) ∈ table.entries) : table.lookup name = some value := by
  obtain ⟨entries, hascending⟩ := table
  unfold lookup
  induction entries with
  | nil => contradiction
  | cons entry rest ih =>
    obtain ⟨hfirst, hrest⟩ := List.pairwise_cons.mp hascending
    rcases List.mem_cons.mp h with rfl | hmem
    · simp
    · have hne : (name == entry.1) = false := by
        refine beq_eq_false_iff_ne.mpr fun heq => ?_
        have hlt := hfirst _ hmem
        rw [heq] at hlt
        exact String.lt_irrefl _ hlt
      rw [List.lookup_cons, hne]
      exact ih hrest hmem

end SortedTable

namespace TypesFile

variable {file : TypesFile} {key : Key}

/-- The rule that a types file declares for a key. -/
def rule? (file : TypesFile) (key : Key) : Option ParamRule :=
  (file.namespaces.lookup key.space).bind (SortedTable.lookup key.name)

/-- The key is one whose parameters the types of the game check, and the file asks for that. -/
def Checks (file : TypesFile) (key : Key) : Prop :=
  file.minecraftTypes = true ∧
    (key.text = "minecraft:entity" ∨ key.text = "minecraft:score_holder")

instance (file : TypesFile) (key : Key) : Decidable (file.Checks key) :=
  inferInstanceAs (Decidable (_ ∧ _))

/-- The key is another name of a built-in type, and the file asks for these. -/
def Aliases (file : TypesFile) (key : Key) : Prop :=
  file.brigadierAliases = true ∧ ∃ builtin, key.text = "brigadier:" ++ Builtin.name builtin

/-! ## First claimants -/

/-- Among the resolvers of declared namespaces, a key is claimed by that of its own namespace, if
its name is declared there. -/
theorem find?_declared {entries : List (String × SortedTable ParamRule)}
    (h : entries.Pairwise fun a b => a.1 < b.1) (key : Key) :
    (entries.map fun (space, types) => Resolver.declared space types).find? (·.claims key) =
      (entries.lookup key.space).bind fun types =>
        (types.lookup key.name).map fun _ => .declared key.space types := by
  induction entries with
  | nil => rfl
  | cons entry rest ih =>
    obtain ⟨space, types⟩ := entry
    obtain ⟨hfirst, hrest⟩ := List.pairwise_cons.mp h
    have ih := ih hrest
    by_cases hspace : key.space = space
    · subst hspace
      -- no later namespace has the same name
      have hnone : rest.lookup key.space = none := by
        rw [List.lookup_eq_none_iff]
        intro entry hmem
        refine bne_iff_ne.mpr fun heq => ?_
        have hlt := hfirst entry hmem
        rw [← heq] at hlt
        exact String.lt_irrefl _ hlt
      rw [hnone] at ih
      cases hrule : types.lookup key.name with
      | none => simpa [Resolver.claims, hrule] using ih
      | some rule => simp [Resolver.claims, hrule]
    · have hne : (key.space == space) = false := beq_eq_false_iff_ne.mpr hspace
      simpa [Resolver.claims, hne, List.lookup_cons] using ih

/-- A resolver that stands there under a condition is found if the condition holds and it claims the
key. -/
theorem find?_of_flag (flag : Bool) (resolver : Resolver) (key : Key) :
    (if flag then [resolver] else []).find? (·.claims key) =
      if flag = true ∧ resolver.claims key = true then some resolver else none := by
  cases flag with
  | false => simp
  | true => cases hclaims : resolver.claims key <;> simp [hclaims]

/-- The first claimant of a key is found in the parts of the file one after the other. -/
theorem find?_registry_eq (file : TypesFile) (key : Key) :
    file.registry.find? key =
      ((if file.minecraftTypes = true ∧ Resolver.minecraft.claims key = true
          then some .minecraft else none).or
        ((file.namespaces.lookup key.space).bind fun types =>
          (types.lookup key.name).map fun _ => .declared key.space types)).or
        (if file.brigadierAliases = true ∧ Resolver.brigadier.claims key = true
          then some .brigadier else none) := by
  have hdeclared := find?_declared file.namespaces.ascending key
  rw [SortedTable.lookup, ← hdeclared, ← find?_of_flag, ← find?_of_flag, ← List.find?_append,
    ← List.find?_append]
  rfl

/-- Types of the game that check their parameters come before declared types, and these before the
other names of built-in types. -/
theorem find?_registry (file : TypesFile) (key : Key) :
    (file.Checks key → file.registry.find? key = some .minecraft) ∧
    (¬ file.Checks key → ∀ rule, file.rule? key = some rule →
      ∃ types, file.namespaces.lookup key.space = some types ∧
        types.lookup key.name = some rule ∧
        file.registry.find? key = some (.declared key.space types)) ∧
    (¬ file.Checks key → file.rule? key = none →
      (file.Aliases key → file.registry.find? key = some .brigadier) ∧
      (¬ file.Aliases key → file.registry.find? key = none)) := by
  have hminecraft : file.minecraftTypes = true ∧ Resolver.minecraft.claims key = true ↔
      file.Checks key := and_congr_right' (Resolver.claims_minecraft_iff key)
  have hbrigadier : file.brigadierAliases = true ∧ Resolver.brigadier.claims key = true ↔
      file.Aliases key := and_congr_right' (Resolver.claims_brigadier_iff key)
  rw [find?_registry_eq]
  refine ⟨fun hchecks => ?_, fun hchecks rule hrule => ?_, fun hchecks hrule => ?_⟩
  · rw [if_pos (hminecraft.mpr hchecks)]
    rfl
  · obtain ⟨types, hspace, hname⟩ := Option.bind_eq_some_iff.mp hrule
    refine ⟨types, hspace, hname, ?_⟩
    rw [if_neg (hminecraft.not.mpr hchecks), hspace, Option.bind_some, hname]
    rfl
  · have hdeclared : ((file.namespaces.lookup key.space).bind fun types =>
        (types.lookup key.name).map fun _ => Resolver.declared key.space types) = none := by
      rw [rule?, Option.bind_eq_none_iff] at hrule
      rw [Option.bind_eq_none_iff]
      intro types hspace
      rw [hrule types hspace, Option.map_none]
    rw [if_neg (hminecraft.not.mpr hchecks), hdeclared]
    refine ⟨fun haliases => ?_, fun haliases => ?_⟩
    · rw [if_pos (hbrigadier.mpr haliases)]
      rfl
    · rw [if_neg (hbrigadier.not.mpr haliases)]
      rfl

end TypesFile

end CommandTree
