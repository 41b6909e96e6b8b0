import CommandTree.Tree.Encoding
import Mathlib.Data.List.Nodup

/-!
# JSON values that stand for drafts

`Json.Denotes` says which JSON values stand for a draft, field by field and without saying how they
are read. Every node and every type is a tagged value, an object or a list, as `Json.Tagged` has it:
unknown fields may stand between those of an object that count, and all that count must be there at
every node. Only a part of a value may say its variant by position.

A draft is read from a value exactly if the value stands for it, so a value with one node of another
shape is refused as a whole, before the names of siblings are looked at.
-/

set_option autoImplicit false

namespace CommandTree

namespace Json

/-! ## Tagged values -/

/-- The tags of a variant. -/
inductive IsTag (place : Place) (variants : List Variant) (variant : Variant) : Json → Prop
  /-- The name of the variant is a tag at every place. -/
  | name : variant ∈ variants → IsTag place variants variant (.string variant.tag)
  /-- The position of the variant is a tag in a part of a value. -/
  | position {index : Nat} : place = .part → variants[index]? = some variant →
    IsTag place variants variant (.number (.integer index))

/-- The values of a variant, each with its fields. -/
inductive Tagged (place : Place) (key : String) (variants : List Variant) (variant : Variant) :
    Json → List (String × Json) → Prop
  /-- An object has its fields beside the tag. -/
  | object {fields : List (String × Json)} {tag : Json} :
    field? fields key = some tag → tag.IsTag place variants variant →
      Tagged place key variants variant (.object fields) fields
  /-- A list has the fields of the variant behind the tag, in order and without their names. -/
  | list {tag : Json} {values : List Json} :
    tag.IsTag place variants variant → values.length = variant.fields.length →
      Tagged place key variants variant (.array (tag :: values)) (variant.fields.zip values)

section Tagged

variable {place : Place} {key : String} {variants : List Variant} {variant : Variant}
  {value : Json} {fields : List (String × Json)}

/-- Only a variant that is known has tags. -/
theorem IsTag.mem {tag : Json} (h : tag.IsTag place variants variant) : variant ∈ variants := by
  cases h with
  | name hmem => exact hmem
  | position _ hindex => exact List.mem_of_getElem? hindex

/-- A tag that is a text is the name of the variant. -/
theorem IsTag.tag_eq {name : String} (h : (string name).IsTag place variants variant) :
    variant.tag = name := by
  cases h
  rfl

/-- Only a variant that is known has values. -/
theorem Tagged.mem (h : value.Tagged place key variants variant fields) : variant ∈ variants := by
  cases h with
  | object _ htag => exact htag.mem
  | list htag _ => exact htag.mem

/-- A variant is found from its tags if no two variants have the same name. -/
theorem variant?_eq_some_iff (hdistinct : (variants.map Variant.tag).Nodup) {tag : Json} :
    variant? place variants tag = some variant ↔ tag.IsTag place variants variant := by
  constructor
  · intro h
    unfold variant? at h
    split at h
    · rename_i name
      obtain rfl : variant.tag = name := by simpa using List.find?_some h
      exact .name (List.mem_of_find?_eq_some h)
    · split at h
      · rename_i hplace
        exact .position hplace h
      · contradiction
    · contradiction
  · intro h
    cases h with
    | name hmem =>
      rw [variant?]
      cases hfind : variants.find? (·.tag == variant.tag) with
      | none => simpa using List.find?_eq_none.mp hfind variant hmem
      | some found =>
        have htag : found.tag = variant.tag := by simpa using List.find?_some hfind
        have hfound := List.mem_of_find?_eq_some hfind
        rw [List.inj_on_of_nodup_map hdistinct hfound hmem htag]
    | position hplace hindex =>
      show (if place = .part then _ else none) = _
      rw [if_pos hplace, hindex]

/-- The variant and the fields of a value are read from the value exactly if it is a value of that
variant with these fields. -/
theorem tagged?_eq_some_iff (hdistinct : (variants.map Variant.tag).Nodup) :
    tagged? place key variants value = some (variant, fields) ↔
      value.Tagged place key variants variant fields := by
  constructor
  · intro h
    unfold tagged? at h
    split at h
    · obtain ⟨_, hvariant, h⟩ := Option.bind_eq_some_iff.mp h
      obtain ⟨tag, htag, hvariant⟩ := Option.bind_eq_some_iff.mp hvariant
      obtain ⟨rfl, rfl⟩ := Prod.mk.inj (Option.some.inj h)
      exact .object htag ((variant?_eq_some_iff hdistinct).mp hvariant)
    · obtain ⟨_, hvariant, h⟩ := Option.bind_eq_some_iff.mp h
      split at h
      · rename_i hlength
        obtain ⟨rfl, rfl⟩ := Prod.mk.inj (Option.some.inj h)
        exact .list ((variant?_eq_some_iff hdistinct).mp hvariant) hlength
      · contradiction
    · contradiction
  · intro h
    cases h with
    | object htag hvariant =>
      simp [tagged?, htag, (variant?_eq_some_iff hdistinct).mpr hvariant]
    | list hvariant hlength =>
      simp [tagged?, (variant?_eq_some_iff hdistinct).mpr hvariant, hlength]

end Tagged

/-- An object has an only field if all its fields have the same name. -/
theorem onlyField?_eq_some_iff {fields : List (String × Json)} {name : String} {value : Json} :
    onlyField? fields = some (name, value) ↔
      field? fields name = some value ∧ ∀ field ∈ fields, field.1 = name := by
  constructor
  · intro h
    obtain ⟨field, hlast, h⟩ := Option.bind_eq_some_iff.mp h
    split at h
    · rename_i hall
      obtain rfl := Option.some.inj h
      refine ⟨?_, by simpa using hall⟩
      rw [List.getLast?_eq_head?_reverse] at hlast
      obtain ⟨others, hreverse⟩ := List.head?_eq_some_iff.mp hlast
      simp [field?, hreverse]
    · contradiction
  · rintro ⟨hfield, hall⟩
    obtain ⟨field, hfind, hvalue⟩ := Option.map_eq_some_iff.mp hfield
    cases hreverse : fields.reverse with
    | nil => simp [hreverse] at hfind
    | cons last others =>
      have hlast : last.1 = name := hall last (by
        rw [← List.mem_reverse, hreverse]
        exact List.mem_cons_self)
      have hsame : last = field := by simpa [hreverse, hlast] using hfind
      have hget : fields.getLast? = some last := by
        rw [List.getLast?_eq_head?_reverse, hreverse, List.head?_cons]
      subst hsame hvalue hlast
      simp only [onlyField?, hget, Option.bind_eq_bind, Option.bind_some]
      rw [if_pos (by simpa using hall)]
      rfl

/-! ## Texts -/

/-- A text is read from a string and from nothing else. -/
theorem string?_eq_some_iff {value : Json} {s : String} :
    value.string? = some s ↔ value = .string s := by
  cases value <;> simp [string?]

/-- A text is read from a field that holds it. -/
theorem stringField?_eq_some_iff {fields : List (String × Json)} {name s : String} :
    stringField? fields name = some s ↔ field? fields name = some (.string s) := by
  simp [stringField?, Option.bind_eq_some_iff, string?_eq_some_iff]

/-- Texts are read from as many strings in the same order. -/
theorem mapM_string?_eq_some_iff {elements : List Json} {ss : List String} :
    elements.mapM string? = some ss ↔ elements = ss.map string := by
  induction elements generalizing ss with
  | nil => cases ss <;> simp
  | cons element elements ih =>
    cases ss with
    | nil => simp [List.mapM_cons, Option.bind_eq_some_iff]
    | cons s ss => simp [List.mapM_cons, Option.bind_eq_some_iff, string?_eq_some_iff, ih]

/-- Texts are read from the list of them. -/
theorem strings?_eq_some_iff {value : Json} {ss : List String} :
    value.strings? = some ss ↔ value = .array (ss.map string) := by
  cases value with
  | array elements => rw [strings?, mapM_string?_eq_some_iff, array.injEq]
  | _ => simp [strings?]

/-! ## Values that stand for something -/

/-- The JSON values that stand for the mode of a string. -/
inductive DenotesMode (mode : StringMode) : Json → Prop
  /-- The keyword stands for the mode. -/
  | keyword : DenotesMode mode (.string mode.keyword)
  /-- So does an object whose only field has the keyword for a name and holds nothing. -/
  | field {fields : List (String × Json)} {value : Json} :
    field? fields mode.keyword = some value → (∀ field ∈ fields, field.1 = mode.keyword) →
      value = .null ∨ value = .object [] → DenotesMode mode (.object fields)

/-- The JSON values that stand for a type. -/
inductive DenotesType (place : Place) : Json → ArgType → Prop
  /-- Truth values have no parameter. -/
  | bool {value : Json} {fields : List (String × Json)} :
    value.Tagged place "kind" ArgType.variants ⟨"bool", []⟩ fields →
      DenotesType place value .bool
  /-- The mode of a string is given. -/
  | string {value word : Json} {fields : List (String × Json)} {mode : StringMode} :
    value.Tagged place "kind" ArgType.variants ⟨"string", ["mode"]⟩ fields →
      field? fields "mode" = some word → word.DenotesMode mode →
      DenotesType place value (.string mode)
  /-- Both bounds of a number are given by numbers of its kind. -/
  | number {value least greatest : Json} {fields : List (String × Json)} {kind : NumberKind}
    {lower upper : kind.Value} :
    value.Tagged place "kind" ArgType.variants ⟨kind.name, ["min", "max"]⟩ fields →
      field? fields "min" = some least → kind.ofJson? least = some lower →
      field? fields "max" = some greatest → kind.ofJson? greatest = some upper →
      DenotesType place value (.number kind lower upper)
  /-- An extension type is given by its key and its words. -/
  | extension {value : Json} {fields : List (String × Json)} {space name : String}
    {payload : List String} :
    value.Tagged place "kind" ArgType.variants ⟨"extension", ["namespace", "name", "payload"]⟩
        fields →
      field? fields "namespace" = some (.string space) →
      field? fields "name" = some (.string name) →
      field? fields "payload" = some (.array (payload.map Json.string)) →
      DenotesType place value (.extension space name payload)

mutual

/-- The JSON values that stand for a draft. -/
inductive Denotes : Place → Json → Draft → Prop
  /-- A literal has no type. -/
  | literal {place : Place} {value : Json} {fields : List (String × Json)} {name : String}
    {elements : List Json} {children : List Draft} :
    value.Tagged place "node" Draft.variants ⟨"literal", ["name", "children"]⟩ fields →
      field? fields "name" = some (.string name) →
      field? fields "children" = some (.array elements) → DenotesAll elements children →
      Denotes place value (.node name none children)
  /-- An argument has a type besides. -/
  | argument {place : Place} {value parameter : Json} {fields : List (String × Json)}
    {name : String} {type : ArgType} {elements : List Json} {children : List Draft} :
    value.Tagged place "node" Draft.variants ⟨"argument", ["name", "type", "children"]⟩ fields →
      field? fields "name" = some (.string name) →
      field? fields "type" = some parameter → parameter.DenotesType .part type →
      field? fields "children" = some (.array elements) → DenotesAll elements children →
      Denotes place value (.node name (some type) children)

/-- The lists of JSON values, all parts of a value, that stand for a list of drafts, one for
one. -/
inductive DenotesAll : List Json → List Draft → Prop
  /-- There is none. -/
  | nil : DenotesAll [] []
  /-- There is one in front of others. -/
  | cons {value : Json} {values : List Json} {d : Draft} {ds : List Draft} :
    value.Denotes .part d → DenotesAll values ds → DenotesAll (value :: values) (d :: ds)

end

end Json

/-! ## Reading types -/

namespace StringMode

/-- A mode is read from the values that stand for it. -/
theorem ofJson?_eq_some_iff {value : Json} {mode : StringMode} :
    ofJson? value = some mode ↔ value.DenotesMode mode := by
  constructor
  · intro h
    unfold ofJson? at h
    split at h
    · obtain rfl := keyword_of_ofKeyword? h
      exact .keyword
    · split at h
      · rename_i hfield
        obtain rfl := keyword_of_ofKeyword? h
        obtain ⟨hvalue, hall⟩ := Json.onlyField?_eq_some_iff.mp hfield
        exact .field hvalue hall (Or.inl rfl)
      · rename_i hfield
        obtain rfl := keyword_of_ofKeyword? h
        obtain ⟨hvalue, hall⟩ := Json.onlyField?_eq_some_iff.mp hfield
        exact .field hvalue hall (Or.inr rfl)
      · contradiction
    · contradiction
  · intro h
    cases h with
    | keyword => exact ofKeyword?_keyword mode
    | field hvalue hall hnothing =>
      rw [ofJson?, Json.onlyField?_eq_some_iff.mpr ⟨hvalue, hall⟩]
      rcases hnothing with rfl | rfl
      · exact ofKeyword?_keyword mode
      · exact ofKeyword?_keyword mode

end StringMode

namespace ArgType

variable {place : Json.Place} {value : Json} {fields : List (String × Json)} {type : ArgType}

/-- No two kinds of types have the same name. -/
theorem nodup_variants : (variants.map Json.Variant.tag).Nodup := by decide

/-- The kinds of types are truth values, strings, the kinds of numbers and extension types. -/
theorem mem_variants {variant : Json.Variant} : variant ∈ variants ↔
    variant = ⟨"bool", []⟩ ∨ variant = ⟨"string", ["mode"]⟩ ∨
      (∃ kind : NumberKind, variant = ⟨kind.name, ["min", "max"]⟩) ∨
      variant = ⟨"extension", ["namespace", "name", "payload"]⟩ := by
  have hall : ∀ kind : NumberKind, kind ∈ NumberKind.all := by
    intro kind
    cases kind <;> decide
  simp [variants, hall, eq_comm]

/-- A number is read from its bounds. -/
theorem ofFields?_name (kind : NumberKind) (fields : List (String × Json)) :
    ofFields? kind.name fields = (do
      let lower ← (Json.field? fields "min").bind kind.ofJson?
      let upper ← (Json.field? fields "max").bind kind.ofJson?
      pure (number kind lower upper)) := by
  cases kind <;> rfl

/-- Whatever is read from the fields of a value, the value stands for it. -/
theorem denotesType_of_ofFields? {variant : Json.Variant}
    (htagged : value.Tagged place "kind" variants variant fields)
    (h : ofFields? variant.tag fields = some type) : value.DenotesType place type := by
  rcases mem_variants.mp htagged.mem with rfl | rfl | ⟨kind, rfl⟩ | rfl
  · obtain rfl : bool = type := Option.some.inj h
    exact .bool htagged
  · obtain ⟨mode, hmode, h⟩ := Option.bind_eq_some_iff.mp h
    obtain ⟨word, hword, hmode⟩ := Option.bind_eq_some_iff.mp hmode
    obtain rfl := Option.some.inj h
    exact .string htagged hword (StringMode.ofJson?_eq_some_iff.mp hmode)
  · rw [ofFields?_name] at h
    obtain ⟨lower, hlower, h⟩ := Option.bind_eq_some_iff.mp h
    obtain ⟨upper, hupper, h⟩ := Option.bind_eq_some_iff.mp h
    obtain ⟨least, hleast, hlower⟩ := Option.bind_eq_some_iff.mp hlower
    obtain ⟨greatest, hgreatest, hupper⟩ := Option.bind_eq_some_iff.mp hupper
    obtain rfl := Option.some.inj h
    exact .number htagged hleast hlower hgreatest hupper
  · obtain ⟨space, hspace, h⟩ := Option.bind_eq_some_iff.mp h
    obtain ⟨name, hown, h⟩ := Option.bind_eq_some_iff.mp h
    obtain ⟨payload, hpayload, h⟩ := Option.bind_eq_some_iff.mp h
    obtain ⟨words, hwords, hstrings⟩ := Option.bind_eq_some_iff.mp hpayload
    obtain rfl := Option.some.inj h
    obtain rfl := Json.strings?_eq_some_iff.mp hstrings
    exact .extension htagged (Json.stringField?_eq_some_iff.mp hspace)
      (Json.stringField?_eq_some_iff.mp hown) hwords

/-- A type is read from a value through its variant and its fields. -/
theorem ofJsonAt?_of_tagged {variant : Json.Variant}
    (htagged : value.Tagged place "kind" variants variant fields) :
    ofJsonAt? place value = ofFields? variant.tag fields := by
  rw [ofJsonAt?, (Json.tagged?_eq_some_iff nodup_variants).mpr htagged]
  rfl

/-- A type is read from the values that stand for it. -/
theorem ofJsonAt?_eq_some_iff :
    ofJsonAt? place value = some type ↔ value.DenotesType place type := by
  constructor
  · intro h
    obtain ⟨⟨variant, fields⟩, htagged, hfields⟩ := Option.bind_eq_some_iff.mp h
    exact denotesType_of_ofFields? ((Json.tagged?_eq_some_iff nodup_variants).mp htagged) hfields
  · intro h
    cases h with
    | bool htagged =>
      rw [ofJsonAt?_of_tagged htagged]
      rfl
    | string htagged hword hmode =>
      rw [ofJsonAt?_of_tagged htagged]
      simp [ofFields?, hword, StringMode.ofJson?_eq_some_iff.mpr hmode]
    | number htagged hleast hlower hgreatest hupper =>
      rw [ofJsonAt?_of_tagged htagged, ofFields?_name]
      simp [hleast, hlower, hgreatest, hupper]
    | extension htagged hspace hname hpayload =>
      rw [ofJsonAt?_of_tagged htagged]
      simp [ofFields?, Json.stringField?_eq_some_iff.mpr hspace,
        Json.stringField?_eq_some_iff.mpr hname, hpayload, Json.strings?_eq_some_iff.mpr rfl]

end ArgType

/-! ## Reading drafts -/

namespace Draft

variable {place : Json.Place} {value : Json}

/-- The two forms of nodes have different names. -/
theorem nodup_variants : (variants.map Json.Variant.tag).Nodup := by decide

/-- A node is a literal or an argument. -/
theorem mem_variants {variant : Json.Variant} : variant ∈ variants ↔
    variant = ⟨"literal", ["name", "children"]⟩ ∨
      variant = ⟨"argument", ["name", "type", "children"]⟩ := by
  simp [variants]

/-- A draft is read from a tagged value that has all its fields, each of the right shape. -/
theorem ofJsonAt?_eq_some_iff {d : Draft} :
    ofJsonAt? place value = some d ↔ ∃ variant fields name type elements children,
      value.Tagged place "node" variants variant fields ∧
      Json.field? fields "name" = some (.string name) ∧
      typeOfFields? variant.tag fields = some type ∧
      Json.field? fields "children" = some (.array elements) ∧
      ofJsonAll? elements = some children ∧ d = node name type children := by
  rw [ofJsonAt?]
  constructor
  · intro h
    split at h
    · contradiction
    rename_i variant fields htagged
    split at h
    · rename_i name type hname htype
      split at h
      · rename_i elements helements
        obtain ⟨children, hchildren, rfl⟩ := Option.map_eq_some_iff.mp h
        exact ⟨variant, fields, name, type, elements, children,
          (Json.tagged?_eq_some_iff nodup_variants).mp htagged,
          Json.stringField?_eq_some_iff.mp hname, htype, helements, hchildren, rfl⟩
      · contradiction
    · contradiction
  · rintro ⟨variant, fields, name, type, elements, children, htagged, hname, htype, helements,
      hchildren, rfl⟩
    have htagged := (Json.tagged?_eq_some_iff nodup_variants).mpr htagged
    have hname := Json.stringField?_eq_some_iff.mpr hname
    split
    · simp_all
    rename_i variant' fields' htagged'
    obtain ⟨rfl, rfl⟩ := Prod.mk.inj (Option.some.inj (htagged.symm.trans htagged'))
    simp only [hname, htype]
    split
    · rename_i elements' helements'
      rw [helements, Option.some.injEq, Json.array.injEq] at helements'
      rw [← helements', hchildren]
      rfl
    · rename_i hother
      exact absurd helements (hother elements)

/-- A list of drafts is read if the first one is read and the others are. -/
theorem ofJsonAll?_cons_eq_some_iff {values : List Json} {ds : List Draft} :
    ofJsonAll? (value :: values) = some ds ↔ ∃ d ds', ofJsonAt? .part value = some d ∧
      ofJsonAll? values = some ds' ∧ ds = d :: ds' := by
  rw [ofJsonAll?]
  cases ofJsonAt? .part value with
  | none => simp
  | some d =>
    cases ofJsonAll? values <;> simp [eq_comm]

mutual

/-- Whatever draft is read from a value, the value stands for it. -/
theorem denotes_of_ofJsonAt? {d : Draft} {place : Json.Place} {value : Json}
    (h : ofJsonAt? place value = some d) : value.Denotes place d := by
  obtain ⟨variant, fields, name, type, elements, children, htagged, hname, htype, helements,
    hchildren, heq⟩ := ofJsonAt?_eq_some_iff.mp h
  cases d with
  | node name' type' children' =>
    obtain ⟨rfl, rfl, rfl⟩ := Draft.node.inj heq
    have hall := denotesAll_of_ofJsonAll? hchildren
    rcases mem_variants.mp htagged.mem with rfl | rfl
    · obtain rfl : none = type' := Option.some.inj htype
      exact .literal htagged hname helements hall
    · obtain ⟨a, ha, rfl⟩ := Option.map_eq_some_iff.mp htype
      obtain ⟨parameter, hparameter, ha⟩ := Option.bind_eq_some_iff.mp ha
      exact .argument htagged hname hparameter (ArgType.ofJsonAt?_eq_some_iff.mp ha) helements hall

/-- Whatever drafts are read from values, the values stand for them. -/
theorem denotesAll_of_ofJsonAll? {values : List Json} {ds : List Draft}
    (h : ofJsonAll? values = some ds) : Json.DenotesAll values ds := by
  cases values with
  | nil =>
    rw [ofJsonAll?] at h
    exact Option.some.inj h ▸ .nil
  | cons value values =>
    obtain ⟨d, ds', hvalue, hvalues, heq⟩ := ofJsonAll?_cons_eq_some_iff.mp h
    cases ds with
    | nil => contradiction
    | cons d' ds =>
      obtain ⟨rfl, rfl⟩ := List.cons.inj heq
      exact .cons (denotes_of_ofJsonAt? hvalue) (denotesAll_of_ofJsonAll? hvalues)

end

mutual

/-- From a value that stands for a draft that draft is read. -/
theorem ofJsonAt?_of_denotes {place : Json.Place} {value : Json} {d : Draft}
    (h : value.Denotes place d) : ofJsonAt? place value = some d := by
  cases h with
  | literal htagged hname helements hall =>
    exact ofJsonAt?_eq_some_iff.mpr ⟨_, _, _, _, _, _, htagged, hname, rfl, helements,
      ofJsonAll?_of_denotesAll hall, rfl⟩
  | argument htagged hname hparameter ha helements hall =>
    refine ofJsonAt?_eq_some_iff.mpr ⟨_, _, _, _, _, _, htagged, hname, ?_, helements,
      ofJsonAll?_of_denotesAll hall, rfl⟩
    simp [typeOfFields?, hparameter, ArgType.ofJsonAt?_eq_some_iff.mpr ha]

/-- From values that stand for drafts these drafts are read. -/
theorem ofJsonAll?_of_denotesAll {values : List Json} {ds : List Draft}
    (h : Json.DenotesAll values ds) : ofJsonAll? values = some ds := by
  cases h with
  | nil => rw [ofJsonAll?]
  | cons hvalue hvalues =>
    exact ofJsonAll?_cons_eq_some_iff.mpr
      ⟨_, _, ofJsonAt?_of_denotes hvalue, ofJsonAll?_of_denotesAll hvalues, rfl⟩

end

end Draft

end CommandTree
