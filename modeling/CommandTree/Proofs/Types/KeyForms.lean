import CommandTree.Proofs.Format.TypeWordsKept

/-!
# Keys have one meaning

A text with no colon is a name in the default namespace, and a text with one colon is a namespace
and a name. That fixes the two parts of a text, and the text is a key if both parts are nonempty and
keep to their alphabets. So a key is read back from its written form in any namespace, and a name of
the default namespace can be written with the namespace in front of it: this is resolved to the same
type, by the same resolver and with the same words behind it.

The two spellings differ in what a diagnostic quotes when the word is no key.
-/

set_option autoImplicit false

namespace CommandTree

namespace Key

/-! ### Alphabets -/

/-- The characters that a namespace may hold. -/
def spaceAlphabet : List Char := "abcdefghijklmnopqrstuvwxyz0123456789._-".toList

/-- The characters that a name may hold. -/
def nameAlphabet : List Char := '/' :: spaceAlphabet

/-- A nonempty text of certain characters. -/
def IsOver (alphabet : List Char) (text : String) : Prop :=
  text ≠ "" ∧ ∀ c ∈ text.toList, c ∈ alphabet

/-- A character may stand in a namespace exactly if it is in the alphabet. -/
theorem isSpaceChar_iff (c : Char) : isSpaceChar c = true ↔ c ∈ spaceAlphabet := by
  constructor
  · intro h
    have hascii : ∀ n < 123, isSpaceChar (Char.ofNat n) = true → Char.ofNat n ∈ spaceAlphabet := by
      decide
    have hlt : c.toNat < 123 := by
      simp only [isSpaceChar, Bool.or_eq_true, Bool.and_eq_true, decide_eq_true_eq, beq_iff_eq] at h
      obtain (((⟨-, hle⟩ | ⟨-, hle⟩) | rfl) | rfl) | rfl := h
      · exact Nat.lt_succ_of_le hle
      · exact Nat.lt_of_le_of_lt hle (by decide)
      all_goals decide
    rw [← Char.ofNat_toNat c] at h ⊢
    exact hascii c.toNat hlt h
  · exact List.all_eq_true.mp (by decide : spaceAlphabet.all isSpaceChar = true) c

/-- A character may stand in a name exactly if it is in the alphabet. -/
theorem isNameChar_iff (c : Char) : isNameChar c = true ↔ c ∈ nameAlphabet := by
  rw [isNameChar, Bool.or_eq_true, isSpaceChar_iff, beq_iff_eq, nameAlphabet, List.mem_cons,
    or_comm]

/-- A text is a namespace exactly if it is a nonempty text over the alphabet. -/
theorem isSpace_iff (text : String) : IsSpace text ↔ IsOver spaceAlphabet text := by
  simp only [IsSpace, IsOver, List.all_eq_true, isSpaceChar_iff]

/-- A text is a name of a key exactly if it is a nonempty text over the alphabet. -/
theorem isName_iff (text : String) : IsName text ↔ IsOver nameAlphabet text := by
  simp only [IsName, IsOver, List.all_eq_true, isNameChar_iff]

/-! ### Parts of a text -/

/-- The namespace and the name that a text has in a default namespace. -/
inductive Splits (default text : String) : String → String → Prop where
  /-- A text with no colon is the name. -/
  | whole : ':' ∉ text.toList → Splits default text default text
  /-- A colon stands between the parts, and it is the only one. -/
  | parts {space name : String} : text = space ++ ":" ++ name → ':' ∉ space.toList →
    ':' ∉ name.toList → Splits default text space name

variable {default text space name : String}

/-- Parsing a text that splits into two parts is to make a key of them. -/
theorem Splits.parse_eq (h : Splits default text space name) :
    parse text default = make space name := by
  cases h with
  | whole hcolon => exact parse_of_notMem hcolon default
  | parts htext hspace hname =>
    rw [htext]
    exact parse_append hspace hname default

/-- A text with two colons has no parts, and it is refused. -/
theorem exists_splits_or_tooMany (text default : String) :
    (∃ space name, Splits default text space name) ∨
      parse text default = .error (.tooManyParts text) := by
  by_cases hnone : ':' ∈ text.toList
  · obtain ⟨front, behind, htext, hfront⟩ := List.eq_append_cons_of_mem hnone
    by_cases hbehind : ':' ∈ behind
    · right
      have hcount : 0 < behind.count ':' := List.count_pos_iff.mpr hbehind
      unfold parse
      rw [htext, List.count_append, List.count_eq_zero_of_not_mem hfront, List.count_cons_self]
      split <;> first | omega | rfl
    · left
      refine ⟨String.ofList front, String.ofList behind, .parts ?_ ?_ ?_⟩
      · rw [← String.toList_inj, htext]
        simp
      · rwa [String.toList_ofList]
      · rwa [String.toList_ofList]
  · exact Or.inl ⟨default, text, .whole hnone⟩

/-- A text is the key of its parts. -/
theorem exists_parse_iff :
    (∃ key, parse text default = .ok key ∧ key.space = space ∧ key.name = name) ↔
      Splits default text space name ∧ IsOver spaceAlphabet space ∧ IsOver nameAlphabet name := by
  constructor
  · rintro ⟨key, hparse, rfl, rfl⟩
    refine ⟨?_, (isSpace_iff _).mp key.isSpace, (isName_iff _).mp key.isName⟩
    obtain ⟨space, name, hsplits⟩ | hmany := exists_splits_or_tooMany text default
    · rw [hsplits.parse_eq, make_eq_ok_iff] at hparse
      obtain ⟨rfl, rfl⟩ := hparse
      exact hsplits
    · rw [hmany] at hparse
      contradiction
  · rintro ⟨hsplits, hspace, hname⟩
    refine ⟨⟨space, name, (isSpace_iff _).mpr hspace, (isName_iff _).mpr hname⟩, ?_, rfl, rfl⟩
    rw [hsplits.parse_eq, make_eq_ok_iff]
    exact ⟨rfl, rfl⟩

end Key

/-! ### Words with and without the default namespace -/

namespace Registry

/-- The results of two words at a place are the same, or both say that the word is no key, and
why. -/
inductive SameButWord (word word' : String) (span : Span) :
    Except Diagnostic ArgType → Except Diagnostic ArgType → Prop where
  /-- The results are the same. -/
  | same (result : Except Diagnostic ArgType) : SameButWord word word' span result result
  /-- Each diagnostic quotes its word. -/
  | invalid (e : KeyError) :
    SameButWord word word' span (.error (.atSpan (.invalidKey word e) span))
      (.error (.atSpan (.invalidKey word' e) span))

/-- A name is resolved in the default namespace as it is with the namespace in front of it. -/
theorem resolve_spelled_out (registry : Registry) {space name : String} (hspace : Key.IsSpace space)
    (hname : ':' ∉ name.toList) (hother : Builtin.ofName? name = none) (default : String)
    (span : Span) (s : TokenStream) :
    (registry.resolve space ⟨name, span⟩ s).2 =
        (registry.resolve default ⟨space ++ ":" ++ name, span⟩ s).2 ∧
      SameButWord name (space ++ ":" ++ name) span (registry.resolve space ⟨name, span⟩ s).1
        (registry.resolve default ⟨space ++ ":" ++ name, span⟩ s).1 := by
  have hcolon : ':' ∉ space.toList := Key.notMem_of_all hspace.2 (by decide)
  have hbuiltin : Builtin.ofName? (space ++ ":" ++ name) = none :=
    Builtin.ofName?_of_colon (by simp)
  simp only [resolve, hother, hbuiltin, Key.parse_of_notMem hname,
    Key.parse_append hcolon hname]
  cases Key.make space name with
  | error e => exact ⟨rfl, .invalid e⟩
  | ok key => exact ⟨rfl, .same _⟩

end Registry

namespace Key

/-- A text is a key exactly if it has no colon or just one and its two parts are nonempty texts over
their alphabets. A key is read back from its written form. And a word without a colon, unless it
names a built-in type, is resolved in the default namespace as it is with the namespace written in
front of it, whatever the default namespace is then. -/
theorem keys_have_one_meaning :
    (∀ text default space name : String,
      (∃ key, parse text default = .ok key ∧ key.space = space ∧ key.name = name) ↔
        Splits default text space name ∧ IsOver spaceAlphabet space ∧ IsOver nameAlphabet name) ∧
    (∀ (key : Key) (default : String), parse key.text default = .ok key) ∧
    ∀ (registry : Registry) (s : TokenStream) (word space default : String) (span : Span),
      ':' ∉ word.toList → (∀ builtin : Builtin, builtin.name ≠ word) →
      IsOver spaceAlphabet space →
      (registry.resolve space ⟨word, span⟩ s).2 =
          (registry.resolve default ⟨space ++ ":" ++ word, span⟩ s).2 ∧
        Registry.SameButWord word (space ++ ":" ++ word) span
          (registry.resolve space ⟨word, span⟩ s).1
          (registry.resolve default ⟨space ++ ":" ++ word, span⟩ s).1 := by
  refine ⟨fun _ _ _ _ => exists_parse_iff, parse_text, ?_⟩
  intro registry s word space default span hcolon hbuiltin hspace
  have hother : Builtin.ofName? word = none := by
    cases hname : Builtin.ofName? word with
    | none => rfl
    | some builtin => exact absurd (Builtin.name_of_ofName? hname) (hbuiltin builtin)
  exact registry.resolve_spelled_out ((isSpace_iff space).mpr hspace) hcolon hother default span s

/-- One name is that of a type with a flag behind it, the other is no name for its capital. -/
theorem keys_have_one_meaning_with_flag :
    let registry : Registry := ⟨[.minecraft]⟩
    let s := TokenStream.ofSource (.ofString "false false")
    let span : Span := ⟨3, 5, 1⟩
    let key : Key := ⟨"minecraft", "score_holder", by decide, by decide⟩
    let agree := fun word : String =>
      (registry.resolve "minecraft" ⟨word, span⟩ s).2 =
          (registry.resolve "x y" ⟨"minecraft" ++ ":" ++ word, span⟩ s).2 ∧
        Registry.SameButWord word ("minecraft" ++ ":" ++ word) span
          (registry.resolve "minecraft" ⟨word, span⟩ s).1
          (registry.resolve "x y" ⟨"minecraft" ++ ":" ++ word, span⟩ s).1
    (registry.resolve "minecraft" ⟨"score_holder", span⟩ s).1 = .ok (.ofKey key ["false"]) ∧
      agree "score_holder" ∧ agree "Score_holder" := by
  intro registry s span key agree
  have hagree : ∀ word : String, ':' ∉ word.toList → Builtin.ofName? word = none → agree word := by
    intro word hcolon hother
    refine keys_have_one_meaning.2.2 registry s word "minecraft" "x y" span hcolon ?_
      ((isSpace_iff _).mp (by decide))
    rintro builtin rfl
    rw [Builtin.ofName?_name] at hother
    contradiction
  refine ⟨?_, hagree _ (by decide) (by decide), hagree _ (by decide) (by decide)⟩
  have hread : (registry.resolve "minecraft" ⟨"score_holder", span⟩ s).1.toOption =
      some (.ofKey key ["false"]) := by
    decide +kernel
  cases hresult : (registry.resolve "minecraft" ⟨"score_holder", span⟩ s).1 with
  | error d =>
    rw [hresult] at hread
    contradiction
  | ok type =>
    rw [hresult] at hread
    rw [Option.some.inj hread]

end Key

end CommandTree
