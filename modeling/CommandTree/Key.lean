/-!
# Keys of extension types

An extension type is named by a key of two parts, a namespace and a name, written with a colon
between them. A word without a colon names a type of a default namespace. Both parts are nonempty
and drawn from small alphabets, and a `Key` carries the proof of that, so every key can be
written and read back.
-/

set_option autoImplicit false

namespace CommandTree

/-- The characters of both parts of a key: lower-case letters, digits, dots, underscores and
hyphens. -/
def Key.isSpaceChar (c : Char) : Bool :=
  ('a' ≤ c && c ≤ 'z') || ('0' ≤ c && c ≤ '9') || c == '.' || c == '_' || c == '-'

/-- A name may hold slashes besides. -/
def Key.isNameChar (c : Char) : Bool := Key.isSpaceChar c || c == '/'

/-- A nonempty text over the characters of a namespace. -/
def Key.IsSpace (text : String) : Prop := text ≠ "" ∧ text.toList.all Key.isSpaceChar = true

/-- A nonempty text over the characters of a name. -/
def Key.IsName (text : String) : Prop := text ≠ "" ∧ text.toList.all Key.isNameChar = true

instance (text : String) : Decidable (Key.IsSpace text) :=
  inferInstanceAs (Decidable (_ ∧ _))

instance (text : String) : Decidable (Key.IsName text) :=
  inferInstanceAs (Decidable (_ ∧ _))

/-- The name of an extension type together with the namespace it belongs to. -/
structure Key where
  /-- The namespace. -/
  space : String
  /-- The name within the namespace. -/
  name : String
  /-- The namespace is well formed. -/
  isSpace : Key.IsSpace space
  /-- The name is well formed. -/
  isName : Key.IsName name
deriving DecidableEq

/-- Why a text is not a key. -/
inductive KeyError where
  /-- The text has more than one colon. -/
  | tooManyParts (text : String)
  /-- The namespace or the name is empty. -/
  | emptyPart (space name : String)
  /-- The namespace holds a character outside its alphabet. -/
  | invalidSpace (space : String)
  /-- The name holds a character outside its alphabet. -/
  | invalidName (name : String)
deriving DecidableEq, Repr

namespace KeyError

/-- The wording of a key error. -/
def message : KeyError → String
  | tooManyParts text => "'" ++ text ++ "' has more than one ':' separator"
  | emptyPart space name => "'" ++ space ++ ":" ++ name ++ "' has an empty namespace or name"
  | invalidSpace space => "namespace '" ++ space ++ "' may only contain [a-z0-9._-]"
  | invalidName name => "name '" ++ name ++ "' may only contain [a-z0-9/._-]"

end KeyError

namespace Key

/-- The key of a namespace and a name. An empty part is reported before a wrong character, and
the namespace before the name. -/
def make (space name : String) : Except KeyError Key :=
  if space = "" ∨ name = "" then .error (.emptyPart space name)
  else if hs : IsSpace space then
    if hn : IsName name then .ok ⟨space, name, hs, hn⟩
    else .error (.invalidName name)
  else .error (.invalidSpace space)

/-- Reads a key from a word, in `default` if the word has no colon. -/
def parse (text default : String) : Except KeyError Key :=
  match text.toList.count ':' with
  | 0 => make default text
  | 1 =>
    make (String.ofList (text.toList.takeWhile (· != ':')))
      (String.ofList ((text.toList.dropWhile (· != ':')).drop 1))
  | _ => .error (.tooManyParts text)

/-- The written form of a key. -/
def text (key : Key) : String := key.space ++ ":" ++ key.name

/-- Making a key succeeds exactly for the two parts that the key has. -/
theorem make_eq_ok_iff (space name : String) (key : Key) :
    make space name = .ok key ↔ key.space = space ∧ key.name = name := by
  unfold make
  constructor
  · intro h
    split at h
    · simp at h
    · split at h
      · split at h
        · simp only [Except.ok.injEq] at h
          subst h
          exact ⟨rfl, rfl⟩
        · simp at h
      · simp at h
  · rintro ⟨rfl, rfl⟩
    have hs := key.isSpace
    have hn := key.isName
    rw [if_neg (by simp [hs.1, hn.1]), dif_pos hs, dif_pos hn]

/-- A text without a colon is a name in the default namespace. -/
theorem parse_of_notMem {text : String} (h : ':' ∉ text.toList) (default : String) :
    parse text default = make default text := by
  unfold parse
  rw [List.count_eq_zero_of_not_mem h]
  rfl

/-- The only colon of a text stands between a namespace and a name. -/
theorem parse_append {space name : String} (hspace : ':' ∉ space.toList)
    (hname : ':' ∉ name.toList) (default : String) :
    parse (space ++ ":" ++ name) default = make space name := by
  have htext : (space ++ ":" ++ name).toList = space.toList ++ ':' :: name.toList := by simp
  have hcount : (space.toList ++ ':' :: name.toList).count ':' = 1 := by
    rw [List.count_append, List.count_eq_zero_of_not_mem hspace, List.count_cons_self,
      List.count_eq_zero_of_not_mem hname]
  have hne : ∀ c ∈ space.toList, (c != ':') = true := by
    intro c hc
    refine bne_iff_ne.mpr ?_
    rintro rfl
    exact hspace hc
  rw [parse, htext, hcount, List.takeWhile_append_of_pos hne, List.dropWhile_append_of_pos hne]
  simp

end Key

end CommandTree
