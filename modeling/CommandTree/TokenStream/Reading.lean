import CommandTree.TokenStream

/-!
# Steps that read tokens

A `Reading` takes tokens from a stream and ends with a result or a failure; either way it leaves a
stream behind. Readings are sequenced as a monad. `Reading.Forward` says that a reading moves the
stream only by taking tokens and looking at them; it holds of the basic steps and is kept by
sequencing.
-/

set_option autoImplicit false

namespace CommandTree

/-- A step that reads tokens. -/
def Reading (ε α : Type) : Type := TokenStream → Except ε α × TokenStream

namespace Reading

variable {ε δ α β : Type}

instance : Monad (Reading ε) where
  pure a := fun s => (.ok a, s)
  bind m f := fun s =>
    match m s with
    | (.ok a, s') => f a s'
    | (.error e, s') => (.error e, s')

/-- Fails without reading anything. -/
def fail (e : ε) : Reading ε α := fun s => (.error e, s)

/-- Goes on with a result that is there already, or fails as it did. -/
def ofExcept (x : Except ε α) : Reading ε α := fun s => (x, s)

/-- Changes the failure of a reading. -/
def mapError (f : ε → δ) (m : Reading ε α) : Reading δ α := fun s =>
  match m s with
  | (.ok a, s') => (.ok a, s')
  | (.error e, s') => (.error (f e), s')

/-- Takes the next token. -/
def next : Reading Diagnostic (Located Token) := TokenStream.next

/-- Looks at the next token. -/
def peek : Reading Diagnostic (Located Token) := TokenStream.peek

/-- Takes the next token if it is a word. -/
def nextWord? : Reading Diagnostic (Option (Located String)) := TokenStream.nextWord?

/-- A reading that only returns leaves the stream in place. -/
theorem pure_apply (a : α) (s : TokenStream) : (pure a : Reading ε α) s = (.ok a, s) := rfl

/-- The second of two readings starts where the first one succeeds, and a failure of the first one
stays. -/
theorem bind_apply (m : Reading ε α) (f : α → Reading ε β) (s : TokenStream) :
    (m >>= f) s =
      match m s with
      | (.ok a, s') => f a s'
      | (.error e, s') => (.error e, s') := rfl

/-- A reading moves the stream only by taking tokens and looking at them. -/
def Forward (m : Reading ε α) : Prop := ∀ s : TokenStream, s.Reaches (m s).2

namespace Forward

/-- Returning takes no token. -/
theorem pure (a : α) : Forward (Pure.pure a : Reading ε α) := fun s => .refl s

/-- Failing takes no token. -/
theorem fail (e : ε) : Forward (Reading.fail e : Reading ε α) := fun s => .refl s

/-- A result that is there already takes no token. -/
theorem ofExcept (x : Except ε α) : Forward (Reading.ofExcept x) := fun s => .refl s

/-- Taking a token goes forward. -/
theorem next : Forward Reading.next := TokenStream.Reaches.next_self

/-- Looking at a token goes forward. -/
theorem peek : Forward Reading.peek := TokenStream.Reaches.peek_self

/-- Taking a token if it is a word goes forward. -/
theorem nextWord? : Forward Reading.nextWord? := TokenStream.Reaches.nextWord?_self

/-- Readings that go forward do so one behind the other. -/
theorem bind {m : Reading ε α} {f : α → Reading ε β} (hm : Forward m) (hf : ∀ a, Forward (f a)) :
    Forward (m >>= f) := by
  intro s
  have h := hm s
  rw [bind_apply]
  rcases hs : m s with ⟨_ | a, s'⟩ <;> rw [hs] at h
  · exact h
  · exact h.trans (hf a s')

/-- Changing the failure does not change the way that a reading goes. -/
theorem mapError {m : Reading ε α} (f : ε → δ) (hm : Forward m) :
    Forward (Reading.mapError f m) := by
  intro s
  have h := hm s
  unfold Reading.mapError
  rcases hs : m s with ⟨_ | a, s'⟩ <;> rw [hs] at h <;> exact h

end Forward

end Reading

end CommandTree
