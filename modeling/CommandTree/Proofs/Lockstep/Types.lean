import CommandTree.Proofs.Lockstep.Streams
import CommandTree.Proofs.Parsing.ReadyMade

/-!
# Reading types in step

Streams that are in step stay so, or fail alike, when a type is read by ready-made resolvers. A
failure is always at a word that was taken or at the token that is next, and points at nothing else.
-/

set_option autoImplicit false

namespace CommandTree

open TokenStream (InStep SameRun)

variable {source : Source}

/-! ## Built-in types -/

/-- Reading a mode gives the same in step. -/
theorem StringMode.sameRun_read {before : List Char} {s s' : TokenStream}
    (h : s.InStep source before s') :
    SameRun source before (fun _ _ => True) (StringMode.read s) (StringMode.read s') := by
  refine (TokenStream.sameRun_next h).bind fun token after q q' _ _ hq htoken => ?_
  cases hword : token.value.word? with
  | none => exact .fail_next hq htoken rfl
  | some word =>
    dsimp only
    cases StringMode.ofKeyword? word with
    | none => exact .fail_next hq htoken rfl
    | some mode => exact .ok hq trivial

namespace NumberKind

/-- Judging a word as a bound gives the same in step. -/
theorem sameRun_bound {before : List Char} {s s' : TokenStream} (kind : NumberKind)
    {word : Located String} (h : s.InStep source before s') (hword : word.span.IsIn before) :
    SameRun source before (fun _ _ => True) (Reading.ofExcept (kind.bound word) s)
      (Reading.ofExcept (kind.bound word) s') := by
  cases hbound : kind.bound word with
  | ok value => exact .ok h trivial
  | error d =>
    obtain ⟨problem, rfl, -, hrelated⟩ := exists_of_bound_eq_error hbound
    exact .fail_at h hword hrelated

/-- Reading bounds gives the same in step. -/
theorem sameRun_readBounds {before : List Char} {s s' : TokenStream} (kind : NumberKind)
    (h : s.InStep source before s') :
    SameRun source before (fun _ _ => True) (kind.readBounds s) (kind.readBounds s') := by
  refine (TokenStream.sameRun_nextWord? h).bind fun lowerWord after q q' _ _ hq hlower => ?_
  cases lowerWord with
  | none => exact .ok hq trivial
  | some lowerWord =>
    refine (sameRun_bound kind hq (hlower _ rfl)).bind fun lower after q q' _ _ hq _ => ?_
    refine (TokenStream.sameRun_nextWord? hq).bind fun upperWord after q q' _ _ hq hupper => ?_
    cases upperWord with
    | none => exact .ok hq trivial
    | some upperWord =>
      have hupper := hupper _ rfl
      refine (sameRun_bound kind hq hupper).bind fun upper after q q' _ hle hq _ => ?_
      split
      · exact .fail_at hq (hupper.mono hle) rfl
      · exact .ok hq trivial

end NumberKind

/-- Reading the parameters of a built-in type gives the same in step. -/
theorem Builtin.sameRun_read {before : List Char} {s s' : TokenStream} (builtin : Builtin)
    (h : s.InStep source before s') :
    SameRun source before (fun _ _ => True) (builtin.read s) (builtin.read s') := by
  cases builtin with
  | bool => exact .ok h trivial
  | string => exact (StringMode.sameRun_read h).bind fun _ _ _ _ _ _ hq _ => .ok hq trivial
  | number kind =>
    exact (kind.sameRun_readBounds h).bind fun _ _ _ _ _ _ hq _ => .ok hq trivial

/-! ## Extension types -/

namespace ParamRule

/-- Reading a fixed number of words gives the same in step. -/
theorem sameRun_readExactly (key : Key) (count left : Nat) (read : List String)
    {before : List Char} {s s' : TokenStream} (h : s.InStep source before s') :
    SameRun source before (fun _ _ => True) (readExactly key count left read s)
      (readExactly key count left read s') := by
  induction left generalizing read before s s' with
  | zero => exact .ok h trivial
  | succ left ih =>
    refine (TokenStream.sameRun_nextWord? h).bind fun word after q q' _ _ hq _ => ?_
    cases word with
    | some word => exact ih _ hq
    | none =>
      refine (TokenStream.sameRun_peek hq).bind fun token after p p' hpeek _ hp _ => ?_
      exact .fail_peeked hp (TokenStream.peeked_of_peek hpeek) nofun

/-- Reading all words gives the same in step. -/
theorem sameRun_readTrailing (read : List String) {before : List Char} {s s' : TokenStream}
    (h : s.InStep source before s') :
    SameRun source before (fun _ _ => True) (readTrailing read s) (readTrailing read s') := by
  rw [readTrailing_eq]
  refine (TokenStream.sameRun_nextWord? h).bind fun word after q q' hword _ hq _ => ?_
  cases word with
  | none => exact .ok hq trivial
  | some word =>
    -- nothing bounds the number of words but the size of what is left
    have hlt := TokenStream.size_nextWord?_lt hword
    exact sameRun_readTrailing (word.value :: read) hq
termination_by s.size

/-- Taking the words of a rule gives the same in step. -/
theorem sameRun_consume (key : Key) (rule : ParamRule) {before : List Char} {s s' : TokenStream}
    (h : s.InStep source before s') :
    SameRun source before (fun _ _ => True) (rule.consume key s) (rule.consume key s') := by
  cases rule with
  | none => exact .ok h trivial
  | exactly count => exact sameRun_readExactly key count count [] h
  | optional =>
    exact (TokenStream.sameRun_nextWord? h).bind fun _ _ _ _ _ _ hq _ => .ok hq trivial
  | trailing => exact sameRun_readTrailing [] h

end ParamRule

namespace Resolver

variable {before : List Char} {s s' : TokenStream}

/-- Reading an entity gives the same in step. -/
theorem sameRun_readEntity (key : Key) (h : s.InStep source before s') :
    SameRun source before (fun _ _ => True) (readEntity key s) (readEntity key s') := by
  refine (TokenStream.sameRun_next h).bind fun token after q q' _ _ hq htoken => ?_
  cases hword : token.value.word? with
  | none => exact .fail_next hq htoken rfl
  | some word =>
    dsimp only
    cases Selection.ofKeyword? word with
    | none => exact .fail_next hq htoken rfl
    | some selection => exact .ok hq trivial

/-- Reading a score holder gives the same in step. -/
theorem sameRun_readScoreHolder (key : Key) (h : s.InStep source before s') :
    SameRun source before (fun _ _ => True) (readScoreHolder key s) (readScoreHolder key s') := by
  refine (TokenStream.sameRun_nextWord? h).bind fun word after q q' _ _ hq hword => ?_
  cases word with
  | none => exact .ok hq trivial
  | some word =>
    dsimp only
    split
    · exact .ok hq trivial
    · exact .fail_at hq (hword _ rfl) rfl

/-- The reading of a ready-made resolver gives the same in step. -/
theorem Reads.sameRun {resolver : Resolver} {key : Key} {m : Reading Diagnostic ArgType}
    (hm : resolver.Reads key m) (h : s.InStep source before s') :
    SameRun source before (fun _ _ => True) (m s) (m s') := by
  cases hm with
  | declared =>
    exact (ParamRule.sameRun_consume key _ h).bind fun _ _ _ _ _ _ hq _ => .ok hq trivial
  | entity => exact sameRun_readEntity key h
  | scoreHolder => exact sameRun_readScoreHolder key h
  | brigadier => exact Builtin.sameRun_read _ h

end Resolver

/-! ## All types -/

/-- Resolving a word with ready-made resolvers gives the same in step. -/
theorem Registry.sameRun_resolve {registry : Registry} (hready : registry.ReadyMade)
    (defaultSpace : String) {word : Located String} {before : List Char} {s s' : TokenStream}
    (h : s.InStep source before s') (hword : word.span.IsIn before) :
    SameRun source before (fun _ _ => True) (registry.resolve defaultSpace word s)
      (registry.resolve defaultSpace word s') := by
  have hresolves := registry.resolvesTo hready defaultSpace word
  generalize registry.resolve defaultSpace word = m at hresolves
  cases hresolves with
  | builtin builtin => exact builtin.sameRun_read h
  | reads hreads => exact hreads.sameRun h
  | refuses problem _ hrelated => exact .fail_at h hword hrelated

end CommandTree
