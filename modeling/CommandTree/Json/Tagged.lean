import CommandTree.Json

/-!
# Tagged JSON values

A value that comes in several variants carries a tag that says which one it is. It is an object
whose fields stand beside the tag, or a list of the tag and the fields in the order of the variant.
The tag is the name of the variant; a value that is a part of another one may say the position of
its variant among all variants instead.
-/

set_option autoImplicit false

namespace CommandTree.Json

/-- Whether a value is read on its own or as a part of another one. -/
inductive Place where
  /-- The value is read on its own. -/
  | whole
  /-- The value is a part of another one. -/
  | part
deriving DecidableEq

/-- A variant of a tagged value. -/
structure Variant where
  /-- The name of the variant. -/
  tag : String
  /-- The names of the fields besides the tag, in order. -/
  fields : List String
deriving DecidableEq

/-- The variant that a tag stands for. -/
def variant? (place : Place) (variants : List Variant) : Json → Option Variant
  | string name => variants.find? (·.tag == name)
  | number (.integer (.ofNat index)) => if place = .part then variants[index]? else none
  | _ => none

/-- The variant of a tagged value, and its fields under their names. An object may have fields
that no variant knows; a list has as many elements as its variant wants. -/
def tagged? (place : Place) (key : String) (variants : List Variant) :
    Json → Option (Variant × List (String × Json))
  | object fields => do
    let variant ← (field? fields key).bind (variant? place variants)
    pure (variant, fields)
  | array (tag :: values) => do
    let variant ← variant? place variants tag
    if values.length = variant.fields.length then pure (variant, variant.fields.zip values)
    else none
  | _ => none

/-- The only field of an object; of several fields of one name the last one counts. -/
def onlyField? (fields : List (String × Json)) : Option (String × Json) := do
  let field ← fields.getLast?
  if fields.all (·.1 == field.1) then pure field else none

/-! ### Fields are smaller than the value -/

/-- A field that is found is one of the fields. -/
theorem exists_mem_of_field? {fields : List (String × Json)} {name : String} {value : Json}
    (h : field? fields name = some value) : ∃ key, (key, value) ∈ fields := by
  obtain ⟨⟨key, value'⟩, hfind, rfl⟩ := Option.map_eq_some_iff.1 h
  exact ⟨key, by simpa using List.mem_of_find?_eq_some hfind⟩

/-- A field of a tagged value is smaller than the value, so reading the fields ends. -/
theorem sizeOf_lt_of_tagged? {place : Place} {key : String} {variants : List Variant}
    {value : Json} {variant : Variant} {fields : List (String × Json)} {name : String}
    {inner : Json} (h : tagged? place key variants value = some (variant, fields))
    (hfield : field? fields name = some inner) : sizeOf inner < sizeOf value := by
  obtain ⟨key', hmem⟩ := exists_mem_of_field? hfield
  unfold tagged? at h
  split at h
  · obtain ⟨_, -, h⟩ := Option.bind_eq_some_iff.1 h
    obtain ⟨-, rfl⟩ := Prod.mk.inj (Option.some.inj h)
    have hlt := List.sizeOf_lt_of_mem hmem
    have hpair : sizeOf (key', inner) = 1 + sizeOf key' + sizeOf inner := rfl
    simp only [object.sizeOf_spec]
    omega
  · obtain ⟨_, -, h⟩ := Option.bind_eq_some_iff.1 h
    split at h
    · obtain ⟨rfl, rfl⟩ := Prod.mk.inj (Option.some.inj h)
      have hlt := List.sizeOf_lt_of_mem (List.of_mem_zip hmem).2
      simp only [array.sizeOf_spec, List.cons.sizeOf_spec]
      omega
    · contradiction
  · contradiction

end CommandTree.Json
