import CommandTree.Yaml.YamlText

/-!
# Tags and directives of YAML text

A tag says what kind of value a node is. It is written in full, or as a suffix behind a handle that
stands for the part before it. What the handles of a document stand for is said by directives in
front of the document, as is its version.

A tag is a row of octets; characters that cannot stand in one are written by the numbers of their
octets. Here an octet stands as the character of that number, and an octet of zero ends the tag.
-/

set_option autoImplicit false

namespace CommandTree.YamlText

/-- A line in front of a document. -/
inductive YamlDirective where
  /-- The version of the text. -/
  | version
  /-- A handle and what it stands for. -/
  | handle (name text : String)
deriving DecidableEq, Repr

/-- A character that may stand in a tag as it is. The indicators of lists may do so only where the
end of the tag is marked. -/
def isTagChar (isDelimited : Bool) (c : Char) : Bool :=
  isNameChar c || [';', '/', '?', ':', '@', '&', '=', '+', '$', '.', '!', '~', '*', '\x27', '(',
    ')'].contains c || (isDelimited && [',', '[', ']'].contains c)

/-- The number of octets that follow a first octet to make up a character. -/
def followers? (octet : Nat) : Option Nat :=
  if octet < 128 then some 0
  else if octet / 32 = 6 then some 1
  else if octet / 16 = 14 then some 2
  else if octet / 8 = 30 then some 3
  else none

/-- Reads the octets of a tag on, of which some have to be written by number to make up a character.
What is read already is given latest first. -/
def readOctets (isDelimited : Bool) (missing : Nat) (read : List Char) (p : Place) :
    List Char → Option (List Char × Cursor)
  | '%' :: a :: b :: rest =>
    match digitIn? 16 a, digitIn? 16 b with
    | some high, some low =>
      let octet := high * 16 + low
      match missing with
      | 0 =>
        match followers? octet with
        | some count => readOctets isDelimited count (Char.ofNat octet :: read) (p.ahead 3) rest
        | none => none
      | more + 1 =>
        if octet / 64 = 2 then
          readOctets isDelimited more (Char.ofNat octet :: read) (p.ahead 3) rest
        else none
    | _, _ => none
  | cs =>
    if missing ≠ 0 then none
    else
      match cs with
      | [] => some (read.reverse, ⟨p, []⟩)
      | c :: rest =>
        if isTagChar isDelimited c then readOctets isDelimited 0 (c :: read) (p.ahead 1) rest
        else if c = '%' then none
        else some (read.reverse, ⟨p, c :: rest⟩)

/-- Reading the octets of a tag leaves no more characters than before. -/
theorem length_readOctets_le {isDelimited : Bool} {missing : Nat} {read cs octets : List Char}
    {p : Place} {c : Cursor} (h : readOctets isDelimited missing read p cs = some (octets, c)) :
    c.rest.length ≤ cs.length := by
  fun_induction readOctets isDelimited missing read p cs with
  | case1 _ _ _ _ _ _ _ _ _ _ _ _ ih =>
    exact Nat.le_succ_of_le (Nat.le_succ_of_le (Nat.le_succ_of_le (ih h)))
  | case2 => simp at h
  | case3 _ _ _ _ _ _ _ _ _ _ _ _ ih =>
    exact Nat.le_succ_of_le (Nat.le_succ_of_le (Nat.le_succ_of_le (ih h)))
  | case4 => simp at h
  | case5 => simp at h
  | case6 => simp at h
  | case7 =>
    obtain ⟨-, rfl⟩ : _ ∧ _ := by simpa using h
    exact Nat.zero_le _
  | case8 _ _ _ _ _ _ _ _ ih => exact Nat.le_succ_of_le (ih h)
  | case9 => simp at h
  | case10 =>
    obtain ⟨-, rfl⟩ : _ ∧ _ := by simpa using h
    exact Nat.le_refl _

/-- Reads the part of a tag that is not empty and ends in front of the first other character. -/
def readTagText? (isDelimited : Bool) (p : Place) (cs : List Char) :
    Option (List Char × Remainder cs) :=
  match h : readOctets isDelimited 0 [] p cs with
  | some ([], _) => none
  | some (octets, c) => some (octets, ⟨c, length_readOctets_le h⟩)
  | none => none

/-- The text of a tag. -/
def tagText (octets : List Char) : String := String.ofList (octets.takeWhile (· != '\x00'))

/-- Reads a tag that is written in full from behind the bracket that delimits it. -/
def readDelimitedTag (p : Place) (cs : List Char) : Option (String × Remainder cs) :=
  match readTagText? true p cs with
  | some (octets, ⟨⟨p', '>' :: rest⟩, h⟩) =>
    some (tagText octets, ⟨⟨p'.ahead 1, rest⟩, Nat.le_of_succ_le h⟩)
  | _ => none

/-- Reads a name from behind the exclamation mark in front of it. It is a handle if a second mark
follows, which is read as well. -/
def readHandle (p : Place) (cs : List Char) : String × Bool × Remainder cs :=
  let name := String.ofList (cs.takeWhile isNameChar)
  match skipWhile isNameChar p cs with
  | ⟨⟨p', '!' :: rest⟩, h⟩ => (name, true, ⟨⟨p'.ahead 1, rest⟩, Nat.le_of_succ_le h⟩)
  | r => (name, false, r)

/-- Reads a tag from behind the exclamation mark that starts it: its handle, which is empty for a
tag that is written in full, and the rest of it. A lone mark is a tag of its own. -/
def readTagParts (p : Place) (cs : List Char) : Option ((String × String) × Remainder cs) :=
  match cs with
  | '<' :: rest =>
    (readDelimitedTag (p.ahead 1) rest).map fun (tag, r) =>
      (("", tag), r.ofTail '<')
  | cs =>
    match readHandle p cs with
    | (name, true, r) =>
      (readTagText? false r.place r.rest).map fun (octets, r') =>
        (("!" ++ name ++ "!", tagText octets), r'.ofShorter r.length_le)
    | (name, false, r) =>
      match h : readOctets false 0 [] r.place r.rest with
      | some (octets, c) =>
        let suffix := name ++ tagText octets
        some (if suffix.isEmpty then ("", "!") else ("!", suffix),
          ⟨c, Nat.le_trans (length_readOctets_le h) r.length_le⟩)
      | none => none

/-- Reads a tag from behind the exclamation mark that starts it. A word ends behind it, or a comma
follows within brackets. -/
def readTag (inFlow : Bool) (p : Place) (cs : List Char) :
    Option ((String × String) × Remainder cs) :=
  match readTagParts p cs with
  | some (parts, r) =>
    if endsWord r.rest || (inFlow && r.rest.head? == some ',') then some (parts, r) else none
  | none => none

/-! ### Directives -/

/-- Whether some digits stand for a number; they are at most nine. -/
def isNumber (n : Nat) (digits : List Char) : Bool :=
  digits.length ≤ 9 && naturalIn? 10 digits == some n

/-- Reads the number of a version, of which two are understood. -/
def readVersion (p : Place) (cs : List Char) : Option (Remainder cs) :=
  if !isNumber 1 (cs.takeWhile isDigit) then none
  else
    match skipWhile isDigit p cs with
    | ⟨⟨p', '.' :: rest⟩, h⟩ =>
      let digits := rest.takeWhile isDigit
      if isNumber 1 digits || isNumber 2 digits then
        some ((skipWhile isDigit (p'.ahead 1) rest).ofShorter (Nat.le_of_succ_le h))
      else none
    | _ => none

/-- Reads a handle and what it stands for. -/
def readHandleText (p : Place) (cs : List Char) : Option ((String × String) × Remainder cs) :=
  match cs with
  | '!' :: rest =>
    let (name, isHandle, r) := readHandle (p.ahead 1) rest
    let handle := if isHandle then "!" ++ name ++ "!" else "!" ++ name
    let r' := skipWhile isBlank r.place r.rest
    match readTagText? true r'.place r'.rest with
    | some (octets, r'') =>
      if (isHandle || name.isEmpty) && r.rest.head?.any isBlank && endsWord r''.rest then
        some ((handle, tagText octets),
          ((r''.ofShorter r'.length_le).ofShorter r.length_le).ofTail '!')
      else none
    | none => none
  | _ => none

/-- Reads a directive from behind the percent sign that starts it, with the rest of its line. -/
def readDirective (p : Place) (cs : List Char) : Option (YamlDirective × Remainder cs) :=
  let name := cs.takeWhile isNameChar
  let r := skipWhile isNameChar p cs
  let r' := skipWhile isBlank r.place r.rest
  let directive? : Option (YamlDirective × Remainder r'.rest) :=
    if !endsWord r.rest then none
    else if name == ['Y', 'A', 'M', 'L'] then
      (readVersion r'.place r'.rest).map fun r => (.version, r)
    else if name == ['T', 'A', 'G'] then
      (readHandleText r'.place r'.rest).map fun ((handle, text), r) => (.handle handle text, r)
    else none
  match directive? with
  | some (directive, r'') =>
    (skipLine? r''.place r''.rest).map fun line =>
      (directive, ((line.ofShorter r''.length_le).ofShorter r'.length_le).ofShorter r.length_le)
  | none => none

end CommandTree.YamlText
