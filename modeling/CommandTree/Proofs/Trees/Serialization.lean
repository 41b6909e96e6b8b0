import CommandTree.Proofs.Format.RoundTrip
import CommandTree.Proofs.Number.Rounding
import CommandTree.Proofs.Trees.Building
import CommandTree.Proofs.Trees.JsonForms

/-!
# Trees that are written as JSON and read back

The value that a tree is written as stands for the draft of that tree. Only a bound that is not
finite gets lost, since JSON has no number for it; a finite bound is kept to the last bit and with
its sign because the number nearest to a number of a format is that number itself. What is left is
that the draft of a tree is built into the tree.

A value of which some node stands for no draft has the wrong shape, however deep that node is and
whatever the names of siblings are.
-/

set_option autoImplicit false

namespace CommandTree

/-! ## Numbers -/

namespace NumberKind

/-- Whether a number is finite, which every integer is. -/
def IsFinite : (kind : NumberKind) → kind.Value → Prop
  | integer, _ => True
  | long, _ => True
  | float, b => b.isInfinite = false
  | double, b => b.isInfinite = false

/-- A number is read back exactly if it is finite, and as itself. -/
theorem ofJson?_toJson_eq_some_iff (kind : NumberKind) (v w : kind.Value) :
    kind.ofJson? (kind.toJson v) = some w ↔ kind.IsFinite v ∧ w = v := by
  have hwhole : ∀ {bits : Nat} (v w : Whole bits),
      Whole.ofInt? bits v.value = some w ↔ True ∧ w = v := by
    intro bits v w
    rw [Whole.ofInt?_value, Option.some.injEq, true_and, eq_comm]
  have hbinary : ∀ {f : Format} (v w : Binary f), v.convert f = w ↔ w = v := by
    intro f v w
    rw [Format.convert_self, eq_comm]
  cases kind with
  | integer => exact hwhole v w
  | long => exact hwhole v w
  | float =>
    rw [toJson, IsFinite]
    cases v.isInfinite with
    | true => simp [ofJson?]
    | false => simp [ofJson?, binaryOfJson, hbinary]
  | double =>
    rw [toJson, IsFinite]
    cases v.isInfinite with
    | true => simp [ofJson?]
    | false => simp [ofJson?, binaryOfJson, hbinary]

end NumberKind

/-! ## Trees -/

namespace ArgType

/-- Whether the bounds of a type are finite. -/
def IsFinite : ArgType → Prop
  | number kind lower upper => kind.IsFinite lower ∧ kind.IsFinite upper
  | _ => True

/-- The value that a type with finite bounds is written as stands for that type. -/
theorem denotesType_toJson {type : ArgType} (place : Json.Place) (h : type.IsFinite) :
    type.toJson.DenotesType place type := by
  cases type with
  | bool => exact .bool (.object rfl (.name (by decide)))
  | string mode =>
    exact .string (.object rfl (.name (by decide))) rfl .keyword
  | number kind lower upper =>
    exact .number (.object rfl (.name (mem_variants.mpr (by simp)))) rfl
      ((kind.ofJson?_toJson_eq_some_iff _ _).mpr ⟨h.1, rfl⟩) rfl
      ((kind.ofJson?_toJson_eq_some_iff _ _).mpr ⟨h.2, rfl⟩)
  | extension space name payload =>
    exact .extension (.object rfl (.name (by decide))) rfl rfl rfl

/-- A value that a type is written as stands for a type only if the bounds are finite. -/
theorem isFinite_of_denotesType {type type' : ArgType} {place : Json.Place}
    (h : type.toJson.DenotesType place type') : type.IsFinite := by
  cases type with
  | number kind lower upper =>
    have htagged : (toJson (number kind lower upper)).Tagged place "kind" variants
        ⟨kind.name, ["min", "max"]⟩ [("kind", .string kind.name), ("min", kind.toJson lower),
          ("max", kind.toJson upper)] :=
      .object rfl (.name (mem_variants.mpr (by simp)))
    have hread := ofJsonAt?_eq_some_iff.mpr h
    rw [ofJsonAt?_of_tagged htagged, ofFields?_name] at hread
    obtain ⟨lower', hlower, hread⟩ := Option.bind_eq_some_iff.mp hread
    obtain ⟨upper', hupper, -⟩ := Option.bind_eq_some_iff.mp hread
    exact ⟨((kind.ofJson?_toJson_eq_some_iff _ _).mp hlower).1,
      ((kind.ofJson?_toJson_eq_some_iff _ _).mp hupper).1⟩
  | _ => trivial

end ArgType

namespace Tree

mutual

/-- The value that a tree with finite bounds is written as stands for the draft of that tree. -/
theorem denotes_toJson {t : Tree} (place : Json.Place) (h : t.EveryType ArgType.IsFinite) :
    t.toJson.Denotes place (Draft.ofTree t) := by
  obtain ⟨name, type, children⟩ := t
  cases type with
  | none =>
    exact .literal (.object rfl (.name (by decide))) rfl rfl (denotesAll_toJsonAll h.2)
  | some type =>
    exact .argument (.object rfl (.name (by decide))) rfl rfl
      (ArgType.denotesType_toJson .part (h.1 type rfl)) rfl (denotesAll_toJsonAll h.2)

/-- The values that trees with finite bounds are written as stand for the drafts of the trees. -/
theorem denotesAll_toJsonAll {ts : List Tree} (h : EveryTypeAll ArgType.IsFinite ts) :
    Json.DenotesAll (toJsonAll ts) (Draft.ofTrees ts) := by
  cases ts with
  | nil => exact .nil
  | cons t ts => exact .cons (denotes_toJson .part h.1) (denotesAll_toJsonAll h.2)

end

mutual

/-- The value that a tree is written as stands for a draft only if the bounds are finite. -/
theorem everyType_of_denotes {t : Tree} {place : Json.Place} {d : Draft}
    (h : t.toJson.Denotes place d) : t.EveryType ArgType.IsFinite := by
  obtain ⟨name, type, children⟩ := t
  cases type with
  | none =>
    cases h with
    | literal htagged hname hchildren hall =>
      cases htagged
      obtain rfl : toJsonAll children = _ := by simpa [Json.field?] using hchildren
      exact ⟨fun a hsame => absurd hsame (by simp), everyTypeAll_of_denotesAll hall⟩
    | argument htagged hname hparameter =>
      cases htagged
      simp [Json.field?] at hparameter
  | some type =>
    cases h with
    | literal htagged =>
      cases htagged with
      | object htag hvariant =>
        obtain rfl : Json.string "argument" = _ := by simpa [Json.field?] using htag
        exact absurd hvariant.tag_eq (by decide)
    | argument htagged hname hparameter ha hchildren hall =>
      cases htagged
      obtain rfl : type.toJson = _ := by simpa [Json.field?] using hparameter
      obtain rfl : toJsonAll children = _ := by simpa [Json.field?] using hchildren
      refine ⟨fun a hsame => ?_, everyTypeAll_of_denotesAll hall⟩
      obtain rfl := Option.some.inj hsame
      exact ArgType.isFinite_of_denotesType ha

/-- The values that trees are written as stand for drafts only if the bounds are finite. -/
theorem everyTypeAll_of_denotesAll {ts : List Tree} {ds : List Draft}
    (h : Json.DenotesAll (toJsonAll ts) ds) : EveryTypeAll ArgType.IsFinite ts := by
  cases ts with
  | nil => trivial
  | cons t ts =>
    cases h with
    | cons hvalue hvalues =>
      exact ⟨everyType_of_denotes hvalue, everyTypeAll_of_denotesAll hvalues⟩

end

/-! ## Reading trees -/

/-- Reading a value that stands for a draft comes to building the draft. -/
theorem ofJson_of_denotes {value : Json} {d : Draft} (h : value.Denotes .whole d) :
    ofJson value = d.build.mapError .duplicate := by
  rw [ofJson, Draft.ofJson?, Draft.ofJsonAt?_of_denotes h]
  dsimp only
  cases d.build <;> rfl

/-- A value that stands for no draft has the wrong shape. -/
theorem ofJson_of_not_denotes {value : Json} (h : ∀ d, ¬ value.Denotes .whole d) :
    ofJson value = .error .shape := by
  have hnone : Draft.ofJson? value = none := by
    rw [Option.eq_none_iff_forall_ne_some]
    intro d hd
    exact h d (Draft.denotes_of_ofJsonAt? hd)
  rw [ofJson, hnone]

/-- The tree that is read from a value is the one that is built of its draft. -/
theorem ofJson_eq_ok_iff {value : Json} {d : Draft} (h : value.Denotes .whole d) (t : Tree) :
    ofJson value = .ok t ↔ d.build = .ok t := by
  rw [ofJson_of_denotes h]
  cases d.build <;> simp [Except.mapError]

/-- The error of reading a value that stands for a draft is the one of building that draft. -/
theorem ofJson_eq_error_iff {value : Json} {d : Draft} (h : value.Denotes .whole d)
    (e : DecodeError) :
    ofJson value = .error e ↔
      ∃ duplicate, d.build = .error duplicate ∧ e = .duplicate duplicate := by
  rw [ofJson_of_denotes h]
  cases d.build <;> simp [Except.mapError, eq_comm]

/-- A tree is read back from its JSON exactly if it has distinct siblings and finite bounds. -/
theorem ofJson_toJson_iff (t : Tree) :
    ofJson t.toJson = .ok t ↔ t.Distinct ∧ t.EveryType ArgType.IsFinite := by
  constructor
  · intro h
    by_cases htypes : t.EveryType ArgType.IsFinite
    · rw [ofJson_eq_ok_iff (denotes_toJson .whole htypes)] at h
      exact ⟨(Draft.distinct_of_build h).1, htypes⟩
    · rw [ofJson_of_not_denotes fun d hd => htypes (everyType_of_denotes hd)] at h
      contradiction
  · rintro ⟨hdistinct, htypes⟩
    rw [ofJson_eq_ok_iff (denotes_toJson .whole htypes)]
    exact Draft.build_ofTree hdistinct

end Tree

/-! ## Values of another shape -/

namespace Json

/-- The lists of elements that stand where a node has its children: in the field of that name, or
at the end of a list. -/
inductive HasChildren : Json → List Json → Prop
  /-- The children are in a field. -/
  | field {fields : List (String × Json)} {elements : List Json} :
    field? fields "children" = some (.array elements) → HasChildren (.object fields) elements
  /-- The children are the last element. -/
  | last (front : List Json) (elements : List Json) :
    HasChildren (.array (front ++ [.array elements])) elements

/-- The nodes of a JSON value, each with its place: the value itself and the children of its
nodes. -/
inductive HasNode (value : Json) : Place → Json → Prop
  /-- The value itself. -/
  | self : HasNode value .whole value
  /-- A child of a node. -/
  | child {place : Place} {node element : Json} {elements : List Json} :
    HasNode value place node → node.HasChildren elements → element ∈ elements →
      HasNode value .part element

/-- Among values that stand for drafts each one stands for a draft. -/
theorem DenotesAll.exists_of_mem {values : List Json} {ds : List Draft} (h : DenotesAll values ds)
    {value : Json} (hvalue : value ∈ values) : ∃ d, value.Denotes .part d := by
  induction values generalizing ds with
  | nil => contradiction
  | cons first rest ih =>
    cases h with
    | cons hfirst hrest =>
      rcases List.mem_cons.mp hvalue with rfl | hvalue
      · exact ⟨_, hfirst⟩
      · exact ih hrest hvalue

/-- The last field of a list stands under the last name. -/
theorem Tagged.field?_last {place : Place} {key : String} {variants : List Variant}
    {tag last : String} {names : List String} {front : List Json} {value : Json}
    {fields : List (String × Json)}
    (h : Tagged place key variants ⟨tag, names ++ [last]⟩ (.array (front ++ [value])) fields) :
    field? fields last = some value := by
  generalize hlist : front ++ [value] = elements at h
  cases h with
  | @list first values _ hlength =>
    have hlength : values.length = names.length + 1 := by simpa using hlength
    have hfront : front ≠ [] := by
      rintro rfl
      obtain rfl : [] = values := (List.cons.inj hlist).2
      simp at hlength
    obtain ⟨first', front, rfl⟩ := List.exists_cons_of_ne_nil hfront
    obtain rfl : front ++ [value] = values := (List.cons.inj hlist).2
    have hnames : names.length = front.length := by simpa using hlength.symm
    rw [List.zip_append hnames]
    simp [field?]

/-- A node that stands for a draft has its children as its last field, and they stand for drafts. -/
theorem Denotes.exists_tagged {place : Place} {value : Json} {d : Draft}
    (h : value.Denotes place d) : ∃ tag names fields elements children,
      value.Tagged place "node" Draft.variants ⟨tag, names ++ ["children"]⟩ fields ∧
      field? fields "children" = some (.array elements) ∧ DenotesAll elements children := by
  cases h with
  | literal htagged _ hfield hall => exact ⟨_, ["name"], _, _, _, htagged, hfield, hall⟩
  | argument htagged _ _ _ hfield hall =>
    exact ⟨_, ["name", "type"], _, _, _, htagged, hfield, hall⟩

/-- Whatever stands where a node has its children stands for drafts if the node does. -/
theorem Denotes.denotesAll_of_hasChildren {place : Place} {value : Json} {elements : List Json}
    {d : Draft} (h : value.Denotes place d) (hchildren : value.HasChildren elements) :
    ∃ children, DenotesAll elements children := by
  obtain ⟨tag, names, fields, elements', children, htagged, hfield, hall⟩ := h.exists_tagged
  have hfield' : field? fields "children" = some (.array elements) := by
    cases hchildren with
    | field hfield' =>
      cases htagged
      exact hfield'
    | last front => exact htagged.field?_last
  obtain rfl := Json.array.inj (Option.some.inj (hfield.symm.trans hfield'))
  exact ⟨children, hall⟩

/-- Where a value stands for a draft, so does every node of it. -/
theorem Denotes.exists_of_hasNode {value node : Json} {place : Place} {d : Draft}
    (h : value.Denotes .whole d) (hnode : value.HasNode place node) :
    ∃ d, node.Denotes place d := by
  induction hnode with
  | self => exact ⟨d, h⟩
  | child _ hchildren helement ih =>
    obtain ⟨d', hd'⟩ := ih
    obtain ⟨children, hall⟩ := hd'.denotesAll_of_hasChildren hchildren
    exact hall.exists_of_mem helement

end Json

/-! ## What serialization comes to -/

namespace Tree

/-- A tree is read back from its JSON exactly if it has distinct siblings and finite bounds. From a
value that stands for a draft a tree is read exactly if the draft has distinct siblings, and then
the one that is built of it; otherwise the duplicate that building reports is reported in its words.
A value with a node somewhere that stands for no draft has the wrong shape, whatever the names of
siblings are. -/
theorem serialization_keeps_trees :
    (∀ t : Tree, ofJson t.toJson = .ok t ↔ t.Distinct ∧ t.EveryType ArgType.IsFinite) ∧
    (∀ (value : Json) (d : Draft), value.Denotes .whole d →
      Draft.ofJson? value = some d ∧
      ((∃ t, ofJson value = .ok t) ↔ d.Distinct) ∧
      (∀ t, ofJson value = .ok t ↔ d.build = .ok t) ∧
      ∀ e, ofJson value = .error e ↔
        ∃ duplicate, d.build = .error duplicate ∧ e = .duplicate duplicate ∧
          e.message? = some duplicate.message) ∧
    ∀ (value node : Json) (place : Json.Place), value.HasNode place node →
      (∀ d, ¬ node.Denotes place d) → ofJson value = .error .shape := by
  refine ⟨ofJson_toJson_iff, fun value d h => ⟨Draft.ofJsonAt?_of_denotes h, ?_,
    ofJson_eq_ok_iff h, fun e => ?_⟩, fun value node place hnode hother => ?_⟩
  · simp only [ofJson_eq_ok_iff h, Draft.build_eq_ok_iff]
    exact ⟨fun ⟨_, hdistinct, _⟩ => hdistinct, fun hdistinct => ⟨_, hdistinct, rfl⟩⟩
  · rw [ofJson_eq_error_iff h]
    refine exists_congr fun duplicate => and_congr_right fun _ => ?_
    constructor
    · rintro rfl
      exact ⟨rfl, rfl⟩
    · exact And.left
  · apply ofJson_of_not_denotes
    intro d h
    obtain ⟨d', hd'⟩ := h.exists_of_hasNode hnode
    exact hother d' hd'

/-- A tree with a negative zero for a bound is read back; of two siblings of one name the second is
reported, also where one of them is a list that says its variant by position; and with a third
sibling that is no node at all the value has the wrong shape. -/
theorem serialization_keeps_trees_negative_zero :
    let zero : Binary Format.single := ⟨true, 0, Nat.zero_le _⟩
    let t := node "r" none [
      node "a" (some (.number .long (NumberKind.least .long) (NumberKind.greatest .long))) [],
      node "b" (some (.number .float zero (NumberKind.greatest .float))) []]
    let leaf := Json.object [("name", .string "x"), ("children", .array []),
      ("node", .string "literal")]
    let listed := Json.array [.number (.integer 0), .string "x", .array []]
    let scope (elements : List Json) := Json.object [("node", .string "literal"),
      ("name", .string "r"), ("children", .array elements)]
    ofJson t.toJson = .ok t ∧
      (scope [leaf, leaf]).Denotes .whole (.node "r" none [.literal "x", .literal "x"]) ∧
      ofJson (scope [leaf, leaf]) = .error (.duplicate ⟨"r", "x"⟩) ∧
      (scope [leaf, listed]).Denotes .whole (.node "r" none [.literal "x", .literal "x"]) ∧
      ofJson (scope [leaf, listed]) = .error (.duplicate ⟨"r", "x"⟩) ∧
      (scope [leaf, leaf, .null]).HasNode .part .null ∧ (∀ d, ¬ Json.null.Denotes .part d) ∧
      ofJson (scope [leaf, leaf, .null]) = .error .shape := by
  intro zero t leaf listed scope
  obtain ⟨hkeeps, hreads, hshape⟩ := serialization_keeps_trees
  have hdistinct : t.Distinct := by simp [t, Distinct, DistinctAll, name]
  have htypes : t.EveryType ArgType.IsFinite := by
    simp [t, EveryType, EveryTypeAll, ArgType.IsFinite, NumberKind.IsFinite]
    decide
  have hleaf : leaf.Denotes .part (.literal "x") :=
    .literal (.object rfl (.name (by decide))) rfl rfl .nil
  have hlisted : listed.Denotes .part (.literal "x") :=
    .literal (.list (.position rfl rfl) rfl) rfl rfl .nil
  have hscope : ∀ {elements : List Json} {children : List Draft},
      Json.DenotesAll elements children →
        (scope elements).Denotes .whole (.node "r" none children) :=
    fun hall => .literal (.object rfl (.name (by decide))) rfl rfl hall
  have htwins := hscope (.cons hleaf (.cons hleaf .nil))
  have hmixed := hscope (.cons hleaf (.cons hlisted .nil))
  have hbuild : (Draft.node "r" none [.literal "x", .literal "x"]).build = .error ⟨"r", "x"⟩ := by
    simp [Draft.build, Draft.buildAll, Draft.literal, Draft.name]
  have hnode : (scope [leaf, leaf, .null]).HasNode .part .null :=
    .child .self (.field rfl) (by simp)
  have hnull : ∀ d, ¬ Json.null.Denotes .part d := by
    rintro d (⟨⟨⟩⟩ | ⟨⟨⟩⟩)
  refine ⟨(hkeeps t).mpr ⟨hdistinct, htypes⟩, htwins, ?_, hmixed, ?_, hnode, hnull,
    hshape _ _ _ hnode hnull⟩
  · exact ((hreads _ _ htwins).2.2.2 _).mpr ⟨_, hbuild, rfl, rfl⟩
  · exact ((hreads _ _ hmixed).2.2.2 _).mpr ⟨_, hbuild, rfl, rfl⟩

end Tree

end CommandTree
