import CommandTree.Proofs.Source.Encoding
import CommandTree.Source.Reader
import Mathlib.Data.List.TakeWhile

/-!
# Damaged sources

A source is read until an attempt fails. `Source.Loads` says which text was loaded and what is
ahead, and `Source.Breaks` says that the attempt behind a text fails, and how. A source breaks at
one place at most. Everything in front of that place could have been read from other sources just as
well: `Source.Agrees` relates a source to those that hold the same lines up to the place where it
breaks.

For bytes the place is known. The lines in front of it are the terminated lines up to the first one
that is not UTF-8, and bytes that start with these lines make a source that agrees.
-/

set_option autoImplicit false

namespace CommandTree

namespace Source

/-- The first attempt to read from the source fails. -/
inductive FailsAtOnce : Source → ReadFailure → Prop where
  /-- The first line is not UTF-8. -/
  | line {lines : List Line} {ending : Ending} :
    FailsAtOnce ⟨.undecodable :: lines, ending⟩ .notUtf8
  /-- There is no line, and the medium fails. -/
  | medium {remainder : List Char} {message : String} :
    FailsAtOnce ⟨[], .failure remainder message⟩ (.medium message)

/-- The first lines of the source are the text, and behind them is `ahead`. -/
def Loads (source : Source) (text : List Char) (ahead : Source) : Prop :=
  ∃ lines, Line.undecodable ∉ lines ∧ source = ⟨lines ++ ahead.lines, ahead.ending⟩ ∧
    text = lines.flatMap Line.chars

/-- The attempt to read on behind the text fails. -/
def Breaks (source : Source) (text : List Char) (e : ReadFailure) : Prop :=
  ∃ ahead, source.Loads text ahead ∧ ahead.FailsAtOnce e

/-- Both sources are the same, or the first one breaks behind lines with which the other one starts
as well. -/
inductive Agrees : Source → Source → Prop where
  /-- A source agrees with itself. -/
  | same (source : Source) : Agrees source source
  /-- Both start with the same line of text. -/
  | line {first : Char} {others : List Char} {lines lines' : List Line} {ending ending' : Ending} :
    Agrees ⟨lines, ending⟩ ⟨lines', ending'⟩ →
      Agrees ⟨.text first others :: lines, ending⟩ ⟨.text first others :: lines', ending'⟩
  /-- The first one fails at once, so the other one does not matter. -/
  | broken {source other : Source} {e : ReadFailure} : source.FailsAtOnce e → Agrees source other

/-- In front of all lines nothing was loaded. -/
theorem Loads.nil (source : Source) : source.Loads [] source := ⟨[], List.not_mem_nil, rfl, rfl⟩

/-- A line of text that is loaded belongs to what was loaded. -/
theorem Loads.line {source : Source} {text others : List Char} {first : Char} {lines : List Line}
    {ending : Ending} (h : source.Loads text ⟨.text first others :: lines, ending⟩) :
    source.Loads (text ++ first :: others) ⟨lines, ending⟩ := by
  obtain ⟨front, hfront, hsource, rfl⟩ := h
  refine ⟨front ++ [.text first others], ?_, ?_, ?_⟩
  · simpa using hfront
  · simpa using hsource
  · simp [Line.chars]

/-- A source breaks in one place and in one way. -/
theorem Breaks.unique {source : Source} {text text' : List Char} {e e' : ReadFailure}
    (h : source.Breaks text e) (h' : source.Breaks text' e') : text = text' ∧ e = e' := by
  obtain ⟨ahead, ⟨front, hfront, hsource, rfl⟩, hfails⟩ := h
  obtain ⟨ahead', ⟨front', hfront', hsource', rfl⟩, hfails'⟩ := h'
  rw [hsource, Source.mk.injEq] at hsource'
  obtain ⟨hlines, hending⟩ := hsource'
  clear hsource
  -- both texts end where the lines stop being text, so the induction goes along the lines
  induction front generalizing front' with
  | nil =>
    cases front' with
    | nil =>
      cases hfails <;> cases hfails' <;> simp_all
    | cons line front' =>
      obtain ⟨hline, -⟩ : Line.undecodable ≠ line ∧ Line.undecodable ∉ front' := by
        simpa using hfront'
      cases hfails with
      | line => exact absurd (List.cons.inj hlines).1 hline
      | medium => simp at hlines
  | cons line front ih =>
    obtain ⟨hline, hfront⟩ : Line.undecodable ≠ line ∧ Line.undecodable ∉ front := by
      simpa using hfront
    cases front' with
    | nil =>
      cases hfails' with
      | line => exact absurd (List.cons.inj hlines).1.symm hline
      | medium => simp at hlines
    | cons line' front' =>
      obtain ⟨rfl, hothers⟩ := List.cons.inj hlines
      obtain ⟨-, hfront'⟩ : Line.undecodable ≠ line ∧ Line.undecodable ∉ front' := by
        simpa using hfront'
      obtain ⟨htext, he⟩ := ih hfront front' hfront' hothers
      exact ⟨by rw [List.flatMap_cons, List.flatMap_cons, htext], he⟩

/-- A source that was read to its end does not break. -/
theorem Loads.not_breaks {source : Source} {text text' : List Char} {e : ReadFailure}
    (h : source.Loads text ⟨[], .endOfInput⟩) : ¬ source.Breaks text' e := by
  rintro ⟨ahead, ⟨front, -, hsource, -⟩, hfails⟩
  obtain ⟨lines, hlines, hsource', -⟩ := h
  rw [hsource, Source.mk.injEq, List.append_nil] at hsource'
  obtain ⟨rfl, hending⟩ := hsource'
  cases hfails with
  | line => simp at hlines
  | medium => simp at hending

/-- Two sources with the same lines in front of a break agree. -/
theorem Agrees.lines {lines : List Line} {tail : Source} {e : ReadFailure}
    (hlines : Line.undecodable ∉ lines) (h : tail.FailsAtOnce e) (other : Source) :
    Agrees ⟨lines ++ tail.lines, tail.ending⟩ ⟨lines ++ other.lines, other.ending⟩ := by
  induction lines with
  | nil => exact .broken h
  | cons line lines ih =>
    obtain ⟨hline, hothers⟩ : Line.undecodable ≠ line ∧ Line.undecodable ∉ lines := by
      simpa using hlines
    cases line with
    | text first others => exact .line (ih hothers)
    | undecodable => exact absurd rfl hline

/-! ## Lines of bytes -/

/-- The characters of a line that is UTF-8 have the bytes of that line. -/
theorem encode_chars_decodeLine {bytes : List UInt8} (h : decodeLine bytes ≠ .undecodable) :
    Bytes.encode (decodeLine bytes).chars = bytes := by
  unfold decodeLine at h ⊢
  cases hdecode : decode? bytes with
  | none => simp [hdecode] at h
  | some cs =>
    cases cs with
    | nil => simp [hdecode, Line.ofChars] at h
    | cons c cs => exact (decode?_eq_some_iff.mp hdecode).symm

/-- The characters of lines that are UTF-8 have the bytes of these lines. -/
theorem encode_flatMap_chars {pieces : List (List UInt8)}
    (h : Line.undecodable ∉ pieces.map decodeLine) :
    Bytes.encode ((pieces.map decodeLine).flatMap Line.chars) = pieces.flatten := by
  induction pieces with
  | nil => rfl
  | cons piece pieces ih =>
    obtain ⟨hpiece, hpieces⟩ : Line.undecodable ≠ decodeLine piece ∧
        Line.undecodable ∉ pieces.map decodeLine := by simpa using h
    rw [List.map_cons, List.flatMap_cons, Bytes.encode_append,
      encode_chars_decodeLine (Ne.symm hpiece), ih hpieces, List.flatten_cons]

/-- A piece that is UTF-8 is a line of text. -/
theorem decodeLine_ne_undecodable {piece : List UInt8} (hne : piece ≠ [])
    (h : (decode? piece).isSome = true) : decodeLine piece ≠ .undecodable := by
  obtain ⟨cs, hcs⟩ := Option.isSome_iff_exists.mp h
  rw [decodeLine, hcs]
  cases cs with
  | nil => exact absurd (decode?_eq_some_iff.mp hcs) hne
  | cons c cs =>
    intro h
    contradiction

/-- The terminated lines up to the first one that is not UTF-8. -/
def intactLines (bytes : List UInt8) : List (List UInt8) :=
  (cut (· == newlineByte) bytes).1.takeWhile fun line => (decode? line).isSome

/-- The bytes in front of the damage. -/
def intactBytes (bytes : List UInt8) : List UInt8 := (intactLines bytes).flatten

/-- How bytes are damaged that are not UTF-8 or that end in a failure of the medium. The failure
shows only if all terminated lines are UTF-8. -/
def damage (bytes : List UInt8) : Option String → ReadFailure
  | none => .notUtf8
  | some message =>
    if (cut (· == newlineByte) bytes).1.all fun line => (decode? line).isSome then .medium message
    else .notUtf8

/-- Every intact line ends in its newline. -/
theorem closed_of_mem_intactLines {bytes line : List UInt8} (h : line ∈ intactLines bytes) :
    Closed (· == newlineByte) line :=
  (closed_of_mem_cut (· == newlineByte) bytes).1 line (List.takeWhile_subset _ h)

/-- Every intact line is UTF-8. -/
theorem undecodable_notMem_intactLines (bytes : List UInt8) :
    Line.undecodable ∉ (intactLines bytes).map decodeLine := by
  intro hmem
  obtain ⟨line, hline, heq⟩ := List.mem_map.mp hmem
  have hdecodes : (decode? line).isSome = true :=
    List.mem_takeWhile_imp (p := fun line => (decode? line).isSome) hline
  obtain ⟨as, b, rfl, -⟩ := closed_of_mem_intactLines hline
  exact decodeLine_ne_undecodable (by simp) hdecodes heq

/-- The bytes in front of the damage are a text. -/
theorem decode?_intactBytes (bytes : List UInt8) :
    decode? (intactBytes bytes) =
      some (((intactLines bytes).map decodeLine).flatMap Line.chars) := by
  rw [decode?_eq_some_iff, encode_flatMap_chars (undecodable_notMem_intactLines bytes)]
  rfl

/-- Whole lines in front of other bytes are lines of their own. -/
theorem ofBytes_flatten_append {lines : List (List UInt8)}
    (h : ∀ line ∈ lines, Closed (· == newlineByte) line) (rest : List UInt8)
    (failure : Option String) :
    ofBytes (lines.flatten ++ rest) failure =
      ⟨lines.map decodeLine ++ (ofBytes rest failure).lines, (ofBytes rest failure).ending⟩ := by
  rw [ofBytes, cut_flatten_append h, ofBytes]
  cases failure <;> simp

/-- Bytes that start with what is in front of the damage make a source that starts with the same
lines. -/
theorem ofBytes_intactBytes_append (bytes rest : List UInt8) (failure : Option String) :
    ofBytes (intactBytes bytes ++ rest) failure =
      ⟨(intactLines bytes).map decodeLine ++ (ofBytes rest failure).lines,
        (ofBytes rest failure).ending⟩ :=
  ofBytes_flatten_append (fun _ h => closed_of_mem_intactLines h) rest failure

/-- What is left of bytes behind their intact lines. -/
def damagedBytes (bytes : List UInt8) : List UInt8 :=
  ((cut (· == newlineByte) bytes).1.dropWhile fun line => (decode? line).isSome).flatten ++
    (cut (· == newlineByte) bytes).2

/-- The intact bytes and the damaged ones are all bytes. -/
theorem intactBytes_append_damagedBytes (bytes : List UInt8) :
    intactBytes bytes ++ damagedBytes bytes = bytes := by
  rw [intactBytes, intactLines, damagedBytes, ← List.append_assoc, ← List.flatten_append,
    List.takeWhile_append_dropWhile, flatten_cut]

/-- A terminated line that is not UTF-8 is the damage. -/
theorem failsAtOnce_of_line {bytes line : List UInt8} {others : List (List UInt8)}
    (failure : Option String)
    (h : (cut (· == newlineByte) bytes).1.dropWhile (fun line => (decode? line).isSome) =
      line :: others) :
    (ofBytes (damagedBytes bytes) failure).FailsAtOnce (damage bytes failure) := by
  have hsublist := List.dropWhile_suffix (fun line => (decode? line).isSome)
    (l := (cut (· == newlineByte) bytes).1)
  rw [h] at hsublist
  have hline : decode? line = none := by
    have hhead := List.head?_dropWhile_not (fun line => (decode? line).isSome)
      (cut (· == newlineByte) bytes).1
    rw [h] at hhead
    simpa using hhead
  have hdamage : damage bytes failure = .notUtf8 := by
    cases failure with
    | none => rfl
    | some message =>
      rw [damage, if_neg]
      intro hall
      have hdecodes := List.all_eq_true.mp hall line (hsublist.subset List.mem_cons_self)
      simp [hline] at hdecodes
  have hclosed : ∀ l ∈ line :: others, Closed (· == newlineByte) l :=
    fun l hl => (closed_of_mem_cut (· == newlineByte) bytes).1 l (hsublist.subset hl)
  rw [damagedBytes, h, ofBytes_flatten_append hclosed, hdamage, List.map_cons, decodeLine, hline]
  exact .line

/-- If all terminated lines are UTF-8, the damage is behind them. -/
theorem failsAtOnce_of_remainder {bytes : List UInt8} {failure : Option String}
    (h : decode? bytes = none ∨ failure ≠ none)
    (hall : ∀ line ∈ (cut (· == newlineByte) bytes).1, (decode? line).isSome = true) :
    (ofBytes (damagedBytes bytes) failure).FailsAtOnce (damage bytes failure) := by
  have hdrop :
      (cut (· == newlineByte) bytes).1.dropWhile (fun line => (decode? line).isSome) = [] :=
    List.dropWhile_eq_nil_iff.mpr hall
  have hcut := cut_of_forall_false (closed_of_mem_cut (· == newlineByte) bytes).2
  rw [damagedBytes, hdrop, List.flatten_nil, List.nil_append]
  cases failure with
  | some message =>
    rw [ofBytes, hcut, damage, if_pos (List.all_eq_true.mpr hall)]
    exact .medium
  | none =>
    have hbytes : decode? bytes = none := by simpa using h
    have hremainder : decode? (cut (· == newlineByte) bytes).2 = none := by
      rw [← Option.not_isSome_iff_eq_none]
      intro hsome
      have hwhole := isSome_decode?_append (isSome_decode?_flatten hall) hsome
      rw [flatten_cut, hbytes] at hwhole
      contradiction
    have hne : (cut (· == newlineByte) bytes).2.isEmpty = false := by
      rw [List.isEmpty_eq_false_iff]
      intro hnil
      rw [hnil, show decode? [] = some [] from decode?_encode []] at hremainder
      contradiction
    simp only [ofBytes, hcut, hne, decodeLine, hremainder]
    exact .line

/-- Behind the intact lines of damaged bytes, reading fails at once. -/
theorem failsAtOnce_damagedBytes {bytes : List UInt8} {failure : Option String}
    (h : decode? bytes = none ∨ failure ≠ none) :
    (ofBytes (damagedBytes bytes) failure).FailsAtOnce (damage bytes failure) := by
  cases hdrop : (cut (· == newlineByte) bytes).1.dropWhile fun line => (decode? line).isSome with
  | cons line others => exact failsAtOnce_of_line failure hdrop
  | nil => exact failsAtOnce_of_remainder h (List.dropWhile_eq_nil_iff.mp hdrop)

/-- Damaged bytes break behind their intact lines. -/
theorem breaks_ofBytes {bytes : List UInt8} {failure : Option String}
    (h : decode? bytes = none ∨ failure ≠ none) :
    (ofBytes bytes failure).Breaks (((intactLines bytes).map decodeLine).flatMap Line.chars)
      (damage bytes failure) := by
  refine ⟨_, ⟨_, undecodable_notMem_intactLines bytes, ?_, rfl⟩, failsAtOnce_damagedBytes h⟩
  rw [← ofBytes_intactBytes_append, intactBytes_append_damagedBytes]

/-- Damaged bytes agree with all bytes that start as they do in front of the damage. -/
theorem agrees_ofBytes {bytes bytes' : List UInt8} {failure : Option String}
    (failure' : Option String) (h : decode? bytes = none ∨ failure ≠ none)
    (hstart : intactBytes bytes <+: bytes') :
    (ofBytes bytes failure).Agrees (ofBytes bytes' failure') := by
  obtain ⟨rest', rfl⟩ := hstart
  have hagrees := Agrees.lines (undecodable_notMem_intactLines bytes) (failsAtOnce_damagedBytes h)
    (ofBytes rest' failure')
  rwa [← ofBytes_intactBytes_append, ← ofBytes_intactBytes_append,
    intactBytes_append_damagedBytes] at hagrees

/-! ## Loaded bytes -/

/-- The lines of bytes, and what is left behind them, which is nothing unless the medium fails.
Every line is terminated, except that the last one need not be where the input ends. -/
theorem exists_lines_ofBytes (bytes : List UInt8) (failure : Option String) :
    ∃ (lines : List (List UInt8)) (rest : List UInt8),
      (ofBytes bytes failure).lines = lines.map decodeLine ∧ bytes = lines.flatten ++ rest ∧
      (failure = none → rest = []) ∧ ∀ front line back, lines = front ++ line :: back →
        Closed (· == newlineByte) line ∨ (back = [] ∧ rest = [] ∧ failure = none) := by
  rcases hcut : cut (· == newlineByte) bytes with ⟨lines, remainder⟩
  have hbytes : lines.flatten ++ remainder = bytes := by
    rw [← flatten_cut (· == newlineByte) bytes, hcut]
  have hclosed : ∀ line ∈ lines, Closed (· == newlineByte) line := by
    have := (closed_of_mem_cut (· == newlineByte) bytes).1
    rwa [hcut] at this
  have hterminated : ∀ front line back, lines = front ++ line :: back →
      Closed (· == newlineByte) line := by
    rintro front line back rfl
    exact hclosed line (by simp)
  cases failure with
  | some message =>
    exact ⟨lines, remainder, by rw [ofBytes, hcut], hbytes.symm, nofun,
      fun front line back h => .inl (hterminated front line back h)⟩
  | none =>
    by_cases hempty : remainder = []
    · subst hempty
      exact ⟨lines, [], by simp [ofBytes, hcut], hbytes.symm, fun _ => rfl,
        fun front line back h => .inl (hterminated front line back h)⟩
    · refine ⟨lines ++ [remainder], [], by simp [ofBytes, hcut, hempty], by simp [hbytes],
        fun _ => rfl, ?_⟩
      intro front line back h
      rcases List.eq_nil_or_concat back with rfl | ⟨others, last, rfl⟩
      · exact .inr ⟨rfl, rfl, rfl⟩
      · rw [List.concat_eq_append, ← List.cons_append, ← List.append_assoc] at h
        exact .inl (hterminated front line others (List.append_inj_left' h rfl))

/-- Only a newline is written as the byte of a newline at the end. -/
theorem getLast?_of_encode {cs : List Char}
    (h : (Bytes.encode cs).getLast? = some newlineByte) : cs.getLast? = some '\n' := by
  rcases List.eq_nil_or_concat cs with rfl | ⟨others, c, rfl⟩
  · simp at h
  · rw [List.concat_eq_append] at h ⊢
    rw [List.getLast?_concat, Option.some.injEq]
    by_contra hc
    have hne : Bytes.encode [c] ≠ [] := by rw [ne_eq, Bytes.encode_eq_nil_iff]; simp
    have hmem : newlineByte ∈ Bytes.encode [c] := by
      rw [Bytes.encode_append, List.getLast?_append, List.getLast?_eq_some_getLast hne,
        Option.some_or, Option.some.injEq] at h
      exact h ▸ List.getLast_mem hne
    have hother : ∀ d ∈ [c], (d == '\n') = false := by simpa using hc
    have hfree := stops_of_mem_encode hother _ hmem
    simp at hfree

/-- A text that was loaded from bytes is made of whole lines of these bytes. -/
theorem exists_of_loads_ofBytes {bytes : List UInt8} {failure : Option String}
    {text : List Char} {ahead : Source} (h : (ofBytes bytes failure).Loads text ahead) :
    ∃ rest, bytes = Bytes.encode text ++ rest ∧
      (text = [] ∨ text.getLast? = some '\n' ∨ (rest = [] ∧ failure = none)) := by
  obtain ⟨front, hfront, hsource, rfl⟩ := h
  obtain ⟨lines, left, hlines, rfl, -, hterminated⟩ := exists_lines_ofBytes bytes failure
  have hsplit : lines.map decodeLine = front ++ ahead.lines := by rw [← hlines, hsource]
  obtain ⟨loaded, others, rfl, rfl, -⟩ := List.map_eq_append_iff.mp hsplit
  have hencode := encode_flatMap_chars hfront
  refine ⟨others.flatten ++ left, by rw [hencode]; simp, ?_⟩
  rcases List.eq_nil_or_concat loaded with rfl | ⟨before, last, rfl⟩
  · exact .inl rfl
  · rcases hterminated before last others (by simp) with hlast | ⟨rfl, rfl, rfl⟩
    · obtain ⟨as, b, rfl, -, hb⟩ := hlast
      refine .inr (.inl (getLast?_of_encode ?_))
      rw [hencode]
      simpa using hb
    · exact .inr (.inr ⟨rfl, rfl⟩)

end Source

end CommandTree
