/-!
# Places in a text

Every token and every diagnostic points at a stretch of the source text. Offsets count bytes of
its UTF-8 form, lines count from one, and the line of a span is the line its first byte is on.
-/

set_option autoImplicit false

namespace CommandTree

/-- A stretch of source text: the bytes from `start` up to but not including `stop`. -/
structure Span where
  /-- The offset of the first byte. -/
  start : Nat
  /-- The offset just past the last byte. -/
  stop : Nat
  /-- The line of the first byte, counted from one. -/
  line : Nat
deriving DecidableEq, Repr

/-- A value together with the place it was read from. -/
structure Located (α : Type) where
  /-- What was read. -/
  value : α
  /-- Where it was read. -/
  span : Span
deriving DecidableEq, Repr

namespace Span

/-- The empty span at an offset. -/
def point (offset line : Nat) : Span := ⟨offset, offset, line⟩

/-- The number of bytes covered; a span that ends before it starts covers none. -/
def length (s : Span) : Nat := s.stop - s.start

/-- A span is empty when it covers no byte. -/
def isEmpty (s : Span) : Bool := s.length == 0

/-- A span lies within a text of `size` bytes when it does not run backwards and ends in it. -/
def Within (s : Span) (size : Nat) : Prop := s.start ≤ s.stop ∧ s.stop ≤ size

instance (s : Span) (size : Nat) : Decidable (s.Within size) :=
  inferInstanceAs (Decidable (_ ∧ _))

/-- The complaint about a span that does not lie within a text of `size` bytes. -/
def complaint? (s : Span) (size : Nat) : Option String :=
  if s.Within size then none
  else some ("Invalid span: \x7bstart: " ++ toString s.start ++ ", end: " ++ toString s.stop ++
    "\x7d for source of length " ++ toString size)

/-- A span raises no complaint exactly if it lies within the text. -/
theorem complaint?_eq_none_iff (s : Span) (size : Nat) :
    s.complaint? size = none ↔ s.Within size := by
  unfold complaint?
  split <;> simp_all

end Span

end CommandTree
