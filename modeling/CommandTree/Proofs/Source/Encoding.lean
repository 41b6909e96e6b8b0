import CommandTree.Source

/-!
# Lines of bytes and lines of text

A source is cut into lines as bytes, and each line is decoded by itself. In UTF-8 the newline byte
stands for a newline and occurs in no other character, so for a text it makes no difference whether
one cuts first or decodes first. `Source.ofBytes_of_decode?` says so.

A cut is determined by what it looks like: every piece ends in the only element of it that stops,
and none stops in the remainder. That is how the cut of a list is found from the cuts of its parts.
-/

set_option autoImplicit false

namespace CommandTree

/-- The UTF-8 form of a text. -/
def Bytes.encode (cs : List Char) : List UInt8 := cs.flatMap String.utf8EncodeChar

namespace Bytes

/-- The empty text has no bytes. -/
@[simp] theorem encode_nil : encode [] = [] := rfl

/-- The bytes of two texts stand one behind the other. -/
@[simp] theorem encode_append (cs ds : List Char) : encode (cs ++ ds) = encode cs ++ encode ds :=
  List.flatMap_append

/-- The bytes of pieces stand one behind the other. -/
theorem encode_flatten (pieces : List (List Char)) :
    encode pieces.flatten = (pieces.map encode).flatten := by
  induction pieces with
  | nil => rfl
  | cons piece pieces ih => rw [List.flatten_cons, encode_append, ih, List.map_cons,
      List.flatten_cons]

/-- Only the empty text has no bytes. -/
theorem encode_eq_nil_iff {cs : List Char} : encode cs = [] ↔ cs = [] := by
  cases cs with
  | nil => simp
  | cons c cs => simp [encode, String.utf8EncodeChar_ne_nil]

end Bytes

namespace Source

/-! ## Cuts -/

section

variable {α : Type} {stops : α → Bool}

/-- A piece as cutting leaves it: it ends in the only element that stops. -/
def Closed (stops : α → Bool) (piece : List α) : Prop :=
  ∃ as b, piece = as ++ [b] ∧ (∀ a ∈ as, stops a = false) ∧ stops b = true

/-- Where nothing stops there is no cut. -/
theorem cut_of_forall_false {as : List α} (h : ∀ a ∈ as, stops a = false) :
    cut stops as = ([], as) := by
  induction as with
  | nil => rfl
  | cons a as ih =>
    obtain ⟨ha, has⟩ := List.forall_mem_cons.mp h
    rw [cut_cons, ih has, cutStep, ha]
    rfl

/-- A closed piece is cut off in front of what is behind it. -/
theorem cut_closed_append {piece : List α} (h : Closed stops piece) (rest : List α) :
    cut stops (piece ++ rest) = (piece :: (cut stops rest).1, (cut stops rest).2) := by
  obtain ⟨as, b, rfl, has, hb⟩ := h
  induction as with
  | nil => simp [cutStep, hb]
  | cons a as ih =>
    obtain ⟨ha, has⟩ := List.forall_mem_cons.mp has
    rw [List.cons_append, List.cons_append, cut_cons, ih has, cutStep, ha]
    rfl

/-- Closed pieces come out of a cut as they went in. -/
theorem cut_flatten_append {pieces : List (List α)} (h : ∀ piece ∈ pieces, Closed stops piece)
    (rest : List α) :
    cut stops (pieces.flatten ++ rest) = (pieces ++ (cut stops rest).1, (cut stops rest).2) := by
  induction pieces with
  | nil => rfl
  | cons piece pieces ih =>
    obtain ⟨hpiece, hpieces⟩ := List.forall_mem_cons.mp h
    rw [List.flatten_cons, List.append_assoc, cut_closed_append hpiece, ih hpieces]
    rfl

/-- All pieces of a cut are closed, and in the remainder nothing stops. -/
theorem closed_of_mem_cut (stops : α → Bool) (as : List α) :
    (∀ piece ∈ (cut stops as).1, Closed stops piece) ∧
      ∀ a ∈ (cut stops as).2, stops a = false := by
  induction as with
  | nil => simp
  | cons a as ih =>
    rw [cut_cons]
    rcases hcut : cut stops as with ⟨pieces, remainder⟩
    rw [hcut] at ih
    obtain ⟨hpieces, hremainder⟩ := ih
    simp only [cutStep]
    split
    · rename_i ha
      exact ⟨List.forall_mem_cons.mpr ⟨⟨[], a, rfl, by simp, ha⟩, hpieces⟩, hremainder⟩
    · rename_i ha
      have ha : stops a = false := by simpa using ha
      cases pieces with
      | nil => exact ⟨by simp, List.forall_mem_cons.mpr ⟨ha, hremainder⟩⟩
      | cons piece pieces =>
        replace hpieces : ∀ p ∈ piece :: pieces, Closed stops p := hpieces
        obtain ⟨⟨bs, b, rfl, hbs, hb⟩, hothers⟩ := List.forall_mem_cons.mp hpieces
        exact ⟨List.forall_mem_cons.mpr
          ⟨⟨a :: bs, b, rfl, List.forall_mem_cons.mpr ⟨ha, hbs⟩, hb⟩, hothers⟩, hremainder⟩

end

/-! ## Decoding -/

/-- Bytes decode to a text exactly when they are its UTF-8 form. -/
theorem decode?_eq_some_iff {bytes : List UInt8} {cs : List Char} :
    decode? bytes = some cs ↔ bytes = Bytes.encode cs := by
  have hbytes : ByteArray.mk bytes.toArray = bytes.toByteArray :=
    ByteArray.ext List.data_toByteArray.symm
  have hencode : (Bytes.encode cs).toByteArray = cs.utf8Encode := rfl
  rw [decode?, hbytes, ← List.toByteArray_inj, hencode, Option.map_eq_some_iff]
  constructor
  · rintro ⟨decoded, hdecode, rfl⟩
    have hsome : bytes.toByteArray.utf8Decode?.isSome = true := by rw [hdecode]; rfl
    have hback := ByteArray.utf8Encode_get_utf8Decode? (h := hsome)
    simpa only [hdecode, Option.get_some] using hback.symm
  · intro h
    exact ⟨cs.toArray, by rw [h, List.utf8Decode?_utf8Encode], List.toList_toArray⟩

/-- The bytes of a text are read as that text. -/
theorem decode?_encode (cs : List Char) : decode? (Bytes.encode cs) = some cs :=
  decode?_eq_some_iff.mpr rfl

/-- Pieces that decode are a text when they are put together. -/
theorem isSome_decode?_append {bytes rest : List UInt8} (h : (decode? bytes).isSome = true)
    (hrest : (decode? rest).isSome = true) : (decode? (bytes ++ rest)).isSome = true := by
  obtain ⟨cs, hcs⟩ := Option.isSome_iff_exists.mp h
  obtain ⟨ds, hds⟩ := Option.isSome_iff_exists.mp hrest
  rw [decode?_eq_some_iff] at hcs hds
  rw [hcs, hds, ← Bytes.encode_append, decode?_encode]
  rfl

/-- Bytes of which all pieces are UTF-8 are UTF-8. -/
theorem isSome_decode?_flatten {pieces : List (List UInt8)}
    (h : ∀ piece ∈ pieces, (decode? piece).isSome = true) :
    (decode? pieces.flatten).isSome = true := by
  induction pieces with
  | nil => exact Option.isSome_iff_exists.mpr ⟨[], decode?_encode []⟩
  | cons piece pieces ih =>
    obtain ⟨hpiece, hpieces⟩ := List.forall_mem_cons.mp h
    exact isSome_decode?_append hpiece (ih hpieces)

/-- The bytes of a text are a line of that text. -/
theorem decodeLine_encode (cs : List Char) : decodeLine (Bytes.encode cs) = Line.ofChars cs := by
  rw [decodeLine, decode?_encode]

/-! ## Newlines -/

/-- No other character has the newline byte in its UTF-8 form. -/
theorem stops_of_mem_encodeChar {c : Char} (hc : c ≠ '\n') :
    ∀ b ∈ String.utf8EncodeChar c, (b == newlineByte) = false := by
  have hne : c.val.toNat ≠ 10 := by
    intro h
    exact hc (Char.ext (UInt32.toNat_inj.mp h))
  intro b hb
  rw [beq_eq_false_iff_ne]
  rintro rfl
  have hbyte : ∀ n, newlineByte = UInt8.ofNat n → n % 256 = 10 := by
    intro n hn
    have := congrArg UInt8.toNat hn
    simpa [newlineByte] using this.symm
  rw [String.utf8EncodeChar] at hb
  split at hb
  · have := hbyte _ (List.mem_singleton.mp hb)
    omega
  · split at hb
    · simp only [List.mem_cons, List.not_mem_nil, or_false] at hb
      rcases hb with hb | hb <;> have := hbyte _ hb <;> omega
    · split at hb
      · simp only [List.mem_cons, List.not_mem_nil, or_false] at hb
        rcases hb with hb | hb | hb <;> have := hbyte _ hb <;> omega
      · simp only [List.mem_cons, List.not_mem_nil, or_false] at hb
        rcases hb with hb | hb | hb | hb <;> have := hbyte _ hb <;> omega

/-- A text without a newline has no byte of a newline. -/
theorem stops_of_mem_encode {cs : List Char} (h : ∀ c ∈ cs, (c == '\n') = false) :
    ∀ b ∈ Bytes.encode cs, (b == newlineByte) = false := by
  intro b hb
  obtain ⟨c, hc, hbc⟩ := List.mem_flatMap.mp hb
  exact stops_of_mem_encodeChar (by simpa using h c hc) b hbc

/-- A text that ends in its only newline has bytes that end in their only newline. -/
theorem closed_encode {piece : List Char} (h : Closed (· == '\n') piece) :
    Closed (· == newlineByte) (Bytes.encode piece) := by
  obtain ⟨as, b, rfl, has, hb⟩ := h
  obtain rfl : b = '\n' := by simpa using hb
  exact ⟨Bytes.encode as, newlineByte, Bytes.encode_append _ _, stops_of_mem_encode has, rfl⟩

/-- The bytes of a text are cut where the text is. -/
theorem cut_encode (cs : List Char) :
    cut (· == newlineByte) (Bytes.encode cs) =
      ((cut (· == '\n') cs).1.map Bytes.encode, Bytes.encode (cut (· == '\n') cs).2) := by
  obtain ⟨hpieces, hremainder⟩ := closed_of_mem_cut (· == '\n') cs
  have hclosed : ∀ piece ∈ (cut (· == '\n') cs).1.map Bytes.encode,
      Closed (· == newlineByte) piece := by
    intro piece hpiece
    obtain ⟨text, htext, rfl⟩ := List.mem_map.mp hpiece
    exact closed_encode (hpieces text htext)
  conv => lhs; rw [← flatten_cut (· == '\n') cs, Bytes.encode_append, Bytes.encode_flatten]
  rw [cut_flatten_append hclosed, cut_of_forall_false (stops_of_mem_encode hremainder)]
  simp

/-- Bytes that are a text make the same source as the text. -/
theorem ofBytes_of_decode? {bytes : List UInt8} {cs : List Char} (h : decode? bytes = some cs) :
    ofBytes bytes none = ofChars cs := by
  obtain rfl := decode?_eq_some_iff.mp h
  have hempty : (Bytes.encode (cut (· == '\n') cs).2).isEmpty = (cut (· == '\n') cs).2.isEmpty := by
    rw [Bool.eq_iff_iff, List.isEmpty_iff, List.isEmpty_iff, Bytes.encode_eq_nil_iff]
  have hlines : decodeLine ∘ Bytes.encode = Line.ofChars := funext decodeLine_encode
  rw [ofBytes, cut_encode, ofChars]
  simp only [List.map_map, hlines, hempty, decodeLine_encode]

end Source

end CommandTree
