import CommandTree.Proofs.Parsing.ReadyMade
import CommandTree.Proofs.Parsing.Recursion

/-!
# What the parser is made of

The parser, with the ready-made resolvers, does nothing to a stream but take tokens and look at
them. A property of readings that holds of these two, of a result and of a failure, and that is kept
by sequencing, therefore holds of the whole parser. `Reading.Composes` is that condition; whoever
wants to know something of the parser that can be said of every reading proves its five parts.

Some properties are lost by a reading that goes on behind the end of input. The parser never does,
except that it stops there when the tree is complete. `Reading.ComposesUpToEnd` asks for less:
taking a token is considered together with what comes behind it, and behind the end of input that is
a failure.
-/

set_option autoImplicit false

namespace CommandTree

/-- A property of readings that holds of whatever takes no token, and is kept by sequencing. -/
structure Reading.Sequences
    (Q : ∀ {α : Type}, Reading Diagnostic α → TokenStream → Prop) : Prop where
  /-- It holds of a result. -/
  pure {α : Type} (a : α) (s : TokenStream) : Q (Pure.pure a : Reading Diagnostic α) s
  /-- It holds of a failure. -/
  fail {α : Type} (d : Diagnostic) (s : TokenStream) :
    Q (Reading.fail d : Reading Diagnostic α) s
  /-- It holds of looking at a token. -/
  peek (s : TokenStream) : Q Reading.peek s
  /-- It is kept by sequencing. -/
  bind {α β : Type} {m : Reading Diagnostic α} {f : α → Reading Diagnostic β} {s : TokenStream} :
    Q m s → (∀ a s', m s = (.ok a, s') → Q (f a) s') → Q (m >>= f) s

/-- A property that every reading has which is put together from taking tokens and looking at them.
-/
structure Reading.Composes
    (Q : ∀ {α : Type}, Reading Diagnostic α → TokenStream → Prop) : Prop extends Sequences @Q where
  /-- It holds of taking a token. -/
  next (s : TokenStream) : Q Reading.next s

/-- A property that every reading has which is put together in this way and takes nothing behind the
end of input. -/
structure Reading.ComposesUpToEnd
    (Q : ∀ {α : Type}, Reading Diagnostic α → TokenStream → Prop) : Prop extends Sequences @Q where
  /-- It holds of taking a token and going on, if behind the end of input there is a failure. -/
  next {α : Type} {f : Located Token → Reading Diagnostic α} {s : TokenStream} :
    (∀ t s', s.next = (.ok t, s') →
      Q (f t) s' ∧ (t.value = .endOfInput → ∃ d, f t = Reading.fail d)) →
    Q (Reading.next >>= f) s

/-- What holds of every reading that is put together holds of those that take nothing behind the end
of input. -/
theorem Reading.Composes.upToEnd {Q : ∀ {α : Type}, Reading Diagnostic α → TokenStream → Prop}
    (h : Composes @Q) : ComposesUpToEnd @Q :=
  ⟨h.toSequences, fun hf => h.bind (h.next _) fun t s' hnext => (hf t s' hnext).1⟩

namespace Reading.ComposesUpToEnd

variable {Q : ∀ {α : Type}, Reading Diagnostic α → TokenStream → Prop} (h : ComposesUpToEnd @Q)
include h

/-! ## Types -/

/-- A property that composes holds of a result that is there already. -/
theorem ofExcept {α : Type} (x : Except Diagnostic α) (s : TokenStream) :
    Q (Reading.ofExcept x) s := by
  cases x with
  | ok a => exact h.pure a s
  | error d => exact h.fail d s

/-- A property that composes holds of taking a word. -/
theorem nextWord? (s : TokenStream) : Q Reading.nextWord? s := by
  rw [nextWord?_eq]
  apply h.bind (h.peek s)
  intro token s' hpeek
  split
  · rename_i hword
    apply h.next
    intro t s'' hnext
    -- the word that was looked at is no end of input
    have hsame := TokenStream.eq_of_peek_of_next hpeek hnext
    refine ⟨h.pure _ s'', fun hend => ?_⟩
    rw [hsame, hword] at hend
    contradiction
  · exact h.pure _ s'

/-- A property that composes holds of reading a mode. -/
theorem readStringMode (s : TokenStream) : Q StringMode.read s := by
  apply h.next
  intro token s' _
  refine ⟨?_, fun hend => ⟨_, by rw [hend]; rfl⟩⟩
  split
  · exact h.fail _ s'
  · split
    · exact h.pure _ s'
    · exact h.fail _ s'

/-- A property that composes holds of reading bounds. -/
theorem readBounds (kind : NumberKind) (s : TokenStream) : Q kind.readBounds s := by
  apply h.bind (h.nextWord? s)
  intro lowerWord s' _
  cases lowerWord with
  | none => exact h.pure _ s'
  | some lowerWord =>
    apply h.bind (h.ofExcept _ s')
    intro lower s' _
    apply h.bind (h.nextWord? s')
    intro upperWord s' _
    cases upperWord with
    | none => exact h.pure _ s'
    | some upperWord =>
      apply h.bind (h.ofExcept _ s')
      intro upper s' _
      split
      · exact h.fail _ s'
      · exact h.pure _ s'

/-- A property that composes holds of reading the parameters of a built-in type. -/
theorem readBuiltin (builtin : Builtin) (s : TokenStream) : Q builtin.read s := by
  cases builtin with
  | bool => exact h.pure _ s
  | string => exact h.bind (h.readStringMode s) fun _ s' _ => h.pure _ s'
  | number kind => exact h.bind (h.readBounds kind s) fun _ s' _ => h.pure _ s'

/-- A property that composes holds of reading a fixed number of words. -/
theorem readExactly (key : Key) (count left : Nat) (read : List String) (s : TokenStream) :
    Q (ParamRule.readExactly key count left read) s := by
  induction left generalizing read s with
  | zero => exact h.pure _ s
  | succ left ih =>
    apply h.bind (h.nextWord? s)
    intro word s' _
    cases word with
    | some word => exact ih _ s'
    | none => exact h.bind (h.peek s') fun _ s'' _ => h.fail _ s''

/-- A property that composes holds of reading all words. -/
theorem readTrailing (read : List String) (s : TokenStream) :
    Q (α := List String) (ParamRule.readTrailing read) s := by
  rw [ParamRule.readTrailing_eq]
  apply h.bind (h.nextWord? s)
  intro word s' hword
  cases word with
  | none => exact h.pure _ s'
  | some word =>
    have hlt := TokenStream.size_nextWord?_lt hword
    exact readTrailing _ s'
termination_by s.size

/-- A property that composes holds of taking the words of a rule. -/
theorem consume (key : Key) (rule : ParamRule) (s : TokenStream) : Q (rule.consume key) s := by
  cases rule with
  | none => exact h.pure _ s
  | exactly count => exact h.readExactly key count count [] s
  | optional => exact h.bind (h.nextWord? s) fun _ s' _ => h.pure _ s'
  | trailing => exact h.readTrailing [] s

/-- A property that composes holds of reading an entity. -/
theorem readEntity (key : Key) (s : TokenStream) : Q (Resolver.readEntity key) s := by
  apply h.next
  intro token s' _
  refine ⟨?_, fun hend => ⟨_, by rw [hend]; rfl⟩⟩
  split
  · exact h.fail _ s'
  · split
    · exact h.pure _ s'
    · exact h.fail _ s'

/-- A property that composes holds of reading a score holder. -/
theorem readScoreHolder (key : Key) (s : TokenStream) : Q (Resolver.readScoreHolder key) s := by
  apply h.bind (h.nextWord? s)
  intro word s' _
  cases word with
  | none => exact h.pure _ s'
  | some word =>
    dsimp only
    split
    · exact h.pure _ s'
    · exact h.fail _ s'

/-- A property that composes holds of the readings of ready-made resolvers. -/
theorem reads {resolver : Resolver} {key : Key} {m : Reading Diagnostic ArgType}
    (hm : resolver.Reads key m) (s : TokenStream) : Q m s := by
  cases hm with
  | declared => exact h.bind (h.consume key _ s) fun _ s' _ => h.pure _ s'
  | entity => exact h.readEntity key s
  | scoreHolder => exact h.readScoreHolder key s
  | brigadier => exact h.readBuiltin _ s

variable {registry : Registry}

/-- A property that composes holds of resolving a word with ready-made resolvers. -/
theorem resolve (hready : registry.ReadyMade) (defaultSpace : String) (word : Located String)
    (s : TokenStream) : Q (registry.resolve defaultSpace word) s := by
  have hresolves := registry.resolvesTo hready defaultSpace word
  generalize registry.resolve defaultSpace word = m at hresolves
  cases hresolves with
  | builtin builtin => exact h.readBuiltin builtin s
  | reads hreads => exact h.reads hreads s
  | refuses problem => exact h.fail _ s

/-! ## Trees -/

/-- A property that composes holds of taking a name. -/
theorem takeName (problem : Token → Problem) (s : TokenStream) : Q (Tree.takeName problem) s := by
  rw [Tree.takeName_eq]
  apply h.next
  intro token s' _
  refine ⟨?_, fun hend => ⟨_, by rw [hend]⟩⟩
  split
  · exact h.pure _ s'
  · exact h.fail _ s'

/-- A property that composes holds of taking a head. -/
theorem takeHead (hready : registry.ReadyMade) (settings : Settings) (s : TokenStream) :
    Q (Tree.takeHead registry settings) s := by
  rw [Tree.takeHead_eq, Tree.takeType_eq]
  apply h.bind (h.takeName _ s)
  intro name s' _
  refine h.bind (h.bind (h.nextWord? s') ?_) fun _ s'' _ => h.pure _ s''
  intro word s' _
  cases word with
  | none => exact h.pure _ s'
  | some word =>
    exact h.bind (h.resolve hready settings.defaultSpace word s') fun _ s'' _ => h.pure _ s''

mutual

/-- A property that composes holds of taking a body. -/
theorem takeBody (hready : registry.ReadyMade) (settings : Settings) (level : Nat)
    (head : Tree.Head) (s : TokenStream) : Q (Tree.takeBody registry settings level head) s := by
  cases hlimit : settings.maxDepth.filter (· < level) with
  | some limit =>
    rw [Tree.takeBody_of_limit head hlimit]
    exact h.fail _ s
  | none =>
    rw [Tree.takeBody_eq head hlimit]
    apply h.next
    intro token s' hnext
    refine ⟨?_, fun hend => ⟨_, by rw [hend]⟩⟩
    split
    · exact h.pure _ s'
    · rename_i hopen
      have hlt := TokenStream.size_next_lt hnext (by simp [hopen])
      apply h.bind (takeChildren hready settings level head.name.value token.span [] [] s')
      intro children s'' _
      exact h.pure _ s''
    · exact h.fail _ s'
termination_by s.size

/-- A property that composes holds of taking the children of a scope. -/
theorem takeChildren (hready : registry.ReadyMade) (settings : Settings) (level : Nat)
    (parent : String) (opening : Span) (seen : Tree.Seen) (read : List Tree) (s : TokenStream) :
    Q (Tree.takeChildren registry settings level parent opening seen read) s := by
  rw [Tree.takeChildren_eq]
  apply h.bind (h.peek s)
  intro token s' hpeek
  have hle := TokenStream.size_le_of_reaches (TokenStream.Reaches.peek_of_eq hpeek)
  split
  · rename_i hclose
    apply h.next
    intro t s'' hnext
    have hsame := TokenStream.eq_of_peek_of_next hpeek hnext
    refine ⟨h.pure _ s'', fun hend => ?_⟩
    rw [hsame, hclose] at hend
    contradiction
  split
  · exact h.fail _ s'
  · apply h.bind (h.takeHead hready settings s')
    intro head s₁ hhead
    have hlt₁ := Tree.size_takeHead_lt hhead
    apply h.bind (takeBody hready settings (level + 1) head s₁)
    intro child s₂ hbody
    have hlt₂ := Tree.size_takeBody_lt hbody
    exact takeChildren hready settings level parent opening _ _ s₂
termination_by s.size
decreasing_by all_goals omega

end

/-- A property that composes holds of taking a root. -/
theorem takeRoot (hready : registry.ReadyMade) (settings : Settings) (s : TokenStream) :
    Q (Tree.takeRoot registry settings) s := by
  rw [Tree.takeRoot_eq]
  apply h.bind (h.takeName _ s)
  intro name s' _
  apply h.bind (h.peek s')
  intro token s'' _
  split
  · exact h.fail _ s''
  · exact h.takeBody hready settings 1 _ s''

end Reading.ComposesUpToEnd

/-- A property that composes holds of taking a tree and the end of input. -/
theorem Reading.Composes.takeWhole
    {Q : ∀ {α : Type}, Reading Diagnostic α → TokenStream → Prop} (h : Composes @Q)
    {registry : Registry} (hready : registry.ReadyMade) (settings : Settings) (s : TokenStream) :
    Q (Tree.takeWhole registry settings) s := by
  rw [Tree.takeWhole_eq]
  apply h.bind (h.upToEnd.takeRoot hready settings s)
  intro root s' _
  apply h.bind (h.next s')
  intro token s'' _
  split
  · exact h.pure _ s''
  · exact h.fail _ s''

end CommandTree
