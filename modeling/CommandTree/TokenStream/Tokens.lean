import CommandTree.TokenStream

/-!
# All tokens of a stream

A stream that is asked for tokens over and over hands out tokens up to the end of input or to the
first failure.
-/

set_option autoImplicit false

namespace CommandTree.TokenStream

/-- The tokens that a stream hands out before the end of input or the first failure, and which of
the two ends them. -/
def tokens (s : TokenStream) : List (Located Token) × Except Diagnostic (Located Token) :=
  match _h : s.next with
  | (.error d, _) => ([], .error d)
  | (.ok t, s') =>
    if _ht : t.value = .endOfInput then ([], .ok t)
    else (t :: (tokens s').1, (tokens s').2)
termination_by s.size
decreasing_by all_goals exact size_next_lt _h _ht

variable {s s' : TokenStream} {t : Located Token}

/-- A stream that fails at once has no tokens before the failure. -/
theorem tokens_of_error {d : Diagnostic} (h : s.next = (.error d, s')) :
    s.tokens = ([], .error d) := by
  rw [tokens]
  split <;> simp_all

/-- A stream at its end has no tokens before the end. -/
theorem tokens_of_end (h : s.next = (.ok t, s')) (ht : t.value = .endOfInput) :
    s.tokens = ([], .ok t) := by
  rw [tokens]
  split <;> simp_all

/-- The tokens of a stream are the next one and those behind it. -/
theorem tokens_of_next (h : s.next = (.ok t, s')) (ht : t.value ≠ .endOfInput) :
    s.tokens = (t :: s'.tokens.1, s'.tokens.2) := by
  rw [tokens]
  split <;> simp_all

end CommandTree.TokenStream
