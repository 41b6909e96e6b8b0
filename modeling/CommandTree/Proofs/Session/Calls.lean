import CommandTree.Proofs.Session.Repeating

/-!
# Sequences of calls on a stream

The users of a stream take tokens, look at tokens and take words, in any order. Whatever they do,
the stream is a cursor over the results that taking tokens alone yields: `TokenStream.result` lists
these, a call that takes a token moves the cursor by one, and every other call leaves it where it
is. What a call returns is said by the result at the cursor.

The invariant of a stream is that a token that was looked at is on the line of the stream, and that
an end of input that was looked at would be found again. A failed scan moves the cursor as well, but
to a place where the same failure is found, provided that nothing is left behind a failure.
-/

set_option autoImplicit false

namespace CommandTree

/-- A call on a token stream. -/
inductive Call where
  /-- Takes the next token. -/
  | next
  /-- Looks at the next token. -/
  | peek
  /-- Takes the next token if it is a word. -/
  | nextWord
deriving DecidableEq, Repr

namespace Call

/-- Makes a call. It returns a token, or nothing where a word was asked for and there is none. -/
def run (s : TokenStream) : Call → Except Diagnostic (Option (Located Token)) × TokenStream
  | next => (s.next.1.map some, s.next.2)
  | peek => (s.peek.1.map some, s.peek.2)
  | nextWord =>
    (s.nextWord?.1.map (Option.map fun word => ⟨.word word.value, word.span⟩), s.nextWord?.2)

/-- The token that a call takes from the stream, if it takes one. -/
def taken (s : TokenStream) : Call → Option (Located Token)
  | peek => none
  | call => (call.run s).1.toOption.join

/-- What a call returns that comes upon `upcoming`. -/
def returns (upcoming : Except Diagnostic (Located Token)) :
    Call → Except Diagnostic (Option (Located Token))
  | nextWord => upcoming.map fun t => if t.value.isWord then some t else none
  | _ => upcoming.map some

/-- The stream behind some calls. -/
def after (s : TokenStream) : List Call → TokenStream
  | [] => s
  | call :: calls => after (call.run s).2 calls

/-- The tokens that calls take from the stream, in order. -/
def takenBy (s : TokenStream) : List Call → List (Located Token)
  | [] => []
  | call :: calls => (call.taken s).toList ++ takenBy (call.run s).2 calls

end Call

namespace TokenStream

/-- What the calls behind the first `k` return if tokens are taken and nothing else is done. -/
def result (s : TokenStream) : Nat → Except Diagnostic (Located Token)
  | 0 => s.next.1
  | k + 1 => s.next.2.result k

variable {s s' : TokenStream} {t : Located Token} {d : Diagnostic}

/-- A look finds what taking would return. -/
theorem peek_fst (s : TokenStream) : s.peek.1 = s.next.1 := by
  cases hpeeked : s.peeked with
  | some t => rw [peek_of_peeked hpeeked, next_of_peeked hpeeked]
  | none =>
    rw [next_of_none hpeeked]
    rcases hscan : s.scan with ⟨d | t, s'⟩
    · rw [peek_of_scan_error hpeeked hscan]
    · rw [peek_of_scan hpeeked hscan]

/-! ## The invariant -/

/-- What holds of a stream whatever was done with it. -/
structure Steady (s : TokenStream) : Prop where
  /-- A token that was looked at is on the line of the stream. -/
  line_eq : ∀ t, s.peeked = some t → s.line = t.span.line
  /-- An end of input that was looked at would be found again. -/
  scan_end : ∀ t, s.peeked = some t → t.value = .endOfInput →
    scan { s with peeked := none } = (.ok t, { s with peeked := none })

/-- Where nothing was looked at there is nothing to find again. -/
theorem steady_of_none (h : s.peeked = none) : s.Steady := by
  constructor
  · intro t ht
    rw [h] at ht
    contradiction
  · intro t ht
    rw [h] at ht
    contradiction

/-- Behind a token that was taken nothing was looked at. -/
theorem steady_next (s : TokenStream) : s.next.2.Steady := steady_of_none (peeked_next s)

/-- Looking keeps what was looked at in place. -/
theorem steady_peek (h : s.Steady) : s.peek.2.Steady := by
  cases hpeeked : s.peeked with
  | some t => rwa [peek_of_peeked hpeeked]
  | none =>
    rcases hscan : s.scan with ⟨d | t, s'⟩
    · rw [peek_of_scan_error hpeeked hscan]
      exact steady_of_none (peeked_of_scan hpeeked hscan)
    · have hsame : { s' with peeked := none } = s' := by rw [← peeked_of_scan hpeeked hscan]
      rw [peek_of_scan hpeeked hscan]
      constructor
      · intro t' ht'
        obtain rfl := Option.some.inj ht'
        exact (line_of_scan hscan : s'.line = t.span.line)
      · intro t' ht' hend
        obtain rfl := Option.some.inj ht'
        show scan { s' with peeked := none } = (.ok t, { s' with peeked := none })
        rw [hsame]
        exact TokenStream.scan_end hscan hend

/-- What was looked at stays in place whatever is done with a stream. -/
theorem steady_of_reaches (hreach : s.Reaches s') (h : s.Steady) : s'.Steady := by
  induction hreach with
  | refl => exact h
  | next _ ih => exact ih (steady_next _)
  | peek _ ih => exact ih (steady_peek h)

/-- Taking a token does not damage what is ahead. -/
theorem clean_next (h : s.reader.ahead.Clean) : s.next.2.reader.ahead.Clean := by
  cases hpeeked : s.peeked with
  | some t => rwa [next_of_peeked hpeeked]
  | none =>
    rw [next_of_none hpeeked]
    exact clean_scan h

/-! ## Results -/

/-- The results of taking tokens depend on the next token and the stream behind it. -/
theorem result_congr (h : s.next = s'.next) : s.result = s'.result := by
  funext k
  cases k with
  | zero => exact congrArg Prod.fst h
  | succ k => rw [result, result, h]

/-- A scan that stays where it is always comes to the same result. -/
theorem result_of_stays {x : Except Diagnostic (Located Token)} (hnone : s.peeked = none)
    (h : s.scan = (x, s)) (k : Nat) : s.result k = x := by
  have hnext := (next_of_none hnone).trans h
  induction k with
  | zero => rw [result, hnext]
  | succ k ih => rwa [result, hnext]

/-- Behind the end of input there is the end of input. -/
theorem result_of_end (hsteady : s.Steady) (h : s.next.1 = .ok t) (ht : t.value = .endOfInput)
    (k : Nat) : s.result k = .ok t := by
  cases k with
  | zero => exact h
  | succ k =>
    refine result_of_stays (peeked_next s) ?_ k
    cases hpeeked : s.peeked with
    | some t' =>
      rw [next_of_peeked hpeeked] at h ⊢
      obtain rfl := Except.ok.inj h
      exact hsteady.scan_end t' hpeeked ht
    | none =>
      rw [next_of_none hpeeked] at h ⊢
      exact scan_end (Prod.ext h rfl) ht

/-- A failed attempt to take a token is a failed scan. -/
theorem scan_of_next_error (h : s.next.1 = .error d) :
    s.peeked = none ∧ s.scan = (.error d, s.next.2) := by
  cases hpeeked : s.peeked with
  | some t => simp [next_of_peeked hpeeked] at h
  | none =>
    rw [next_of_none hpeeked] at h ⊢
    exact ⟨rfl, Prod.ext h rfl⟩

/-- A look that fails leaves the stream as a failed attempt to take the token does. -/
theorem peek_snd_of_error (h : s.next.1 = .error d) : s.peek.2 = s.next.2 := by
  obtain ⟨hnone, hscan⟩ := scan_of_next_error h
  rw [peek_of_scan_error hnone hscan]

/-! ## Lasting failures -/

/-- Where taking a token fails, it fails again in the same way. -/
def Lasting (s : TokenStream) : Prop := ∀ k d, s.result k = .error d → s.result (k + 1) = .error d

namespace Lasting

/-- Failures that last do so behind the next token. -/
theorem next (h : s.Lasting) : s.next.2.Lasting := fun k => h (k + 1)

/-- From the first failure on every call gives it. -/
theorem result_of_error (h : s.Lasting) {k : Nat} (hk : s.result k = .error d) (j : Nat) :
    s.result (k + j) = .error d := by
  induction j with
  | zero => exact hk
  | succ j ih => exact h (k + j) d ih

/-- Looking does not change what is taken next. -/
theorem result_peek (h : s.Lasting) : s.peek.2.result = s.result := by
  cases hnext : s.next.1 with
  | ok t =>
    have hpeek : s.peek = (.ok t, s.peek.2) := Prod.ext (s.peek_fst.trans hnext) rfl
    exact result_congr (next_of_peek hpeek)
  | error d =>
    have hfirst : s.result 0 = .error d := hnext
    funext k
    rw [peek_snd_of_error hnext, ← Nat.zero_add k, h.result_of_error hfirst,
      show s.next.2.result (0 + k) = s.result (0 + (k + 1)) by rw [Nat.zero_add, Nat.zero_add]; rfl,
      h.result_of_error hfirst]

/-- Looking does not change whether failures last. -/
theorem peek (h : s.Lasting) : s.peek.2.Lasting := by
  rw [Lasting, h.result_peek]
  exact h

/-- Failures that last do so whatever is done with a stream. -/
theorem of_reaches (hreach : s.Reaches s') (h : s.Lasting) : s'.Lasting := by
  induction hreach with
  | refl => exact h
  | next _ ih => exact ih h.next
  | peek _ ih => exact ih h.peek

/-- Failures last if scanning behind each of them comes back to it. -/
theorem of_stays {P : TokenStream → Prop} (hnext : ∀ s, P s → P s.next.2)
    (hstays : ∀ s d s', P s → s.scan = (.error d, s') → s'.scan = (.error d, s')) (h : P s) :
    s.Lasting := by
  intro k d hk
  induction k generalizing s with
  | zero =>
    obtain ⟨-, hscan⟩ := scan_of_next_error hk
    exact result_of_stays (peeked_next s) (hstays s d _ h hscan) 0
  | succ k ih => exact ih (hnext s h) hk

end Lasting

/-- Where nothing is left behind a failure, failures last. -/
theorem lasting_of_clean (hclean : s.reader.ahead.Clean) : s.Lasting :=
  .of_stays (P := fun s => s.reader.ahead.Clean) (fun _ => clean_next)
    (fun _ _ _ => scan_error) hclean

end TokenStream

/-! ## Calls -/

namespace Call

open TokenStream

variable {s : TokenStream} {t : Located Token}

/-- Where a word is next it is taken. -/
theorem nextWord?_of_word {text : String} {span : Span} (h : s.next.1 = .ok ⟨.word text, span⟩) :
    s.nextWord? = (.ok (some ⟨text, span⟩), s.next.2) := by
  have hpeek : s.peek = (.ok ⟨.word text, span⟩, s.peek.2) := Prod.ext (s.peek_fst.trans h) rfl
  rw [nextWord?, hpeek, ← next_of_peek hpeek]

/-- Where another token is next, no word is taken and the token stays. -/
theorem nextWord?_of_not_isWord (h : s.next.1 = .ok t) (ht : t.value.isWord = false) :
    s.nextWord? = (.ok none, s.peek.2) := by
  have hpeek : s.peek = (.ok t, s.peek.2) := Prod.ext (s.peek_fst.trans h) rfl
  obtain ⟨value, span⟩ := t
  rw [nextWord?, hpeek]
  cases value with
  | word text => contradiction
  | _ => rfl

/-- Where taking a token fails, so does taking a word, in the same way. -/
theorem nextWord?_of_error {d : Diagnostic} (h : s.next.1 = .error d) :
    s.nextWord? = (.error d, s.peek.2) := by
  have hpeek : s.peek = (.error d, s.peek.2) := Prod.ext (s.peek_fst.trans h) rfl
  rw [nextWord?, hpeek]

/-- A call fails exactly where taking the next token does. -/
theorem returns_eq_error_iff (call : Call) {x : Except Diagnostic (Located Token)}
    {d : Diagnostic} : call.returns x = .error d ↔ x = .error d := by
  cases x with
  | error d' => cases call <;> simp [returns, Except.map]
  | ok t => cases call <;> simp [returns, Except.map]

/-- What a call returns is said by the token that is next. -/
theorem run_fst (call : Call) (s : TokenStream) : (call.run s).1 = call.returns s.next.1 := by
  cases call with
  | next => rfl
  | peek => rw [run, returns, peek_fst]; nofun
  | nextWord =>
    cases hnext : s.next.1 with
    | error d => rw [run, nextWord?_of_error hnext]; rfl
    | ok t =>
      cases hword : t.value.isWord with
      | true =>
        obtain ⟨value, span⟩ := t
        obtain ⟨text, rfl⟩ := (Token.isWord_iff value).mp hword
        rw [run, nextWord?_of_word hnext]
        rfl
      | false =>
        rw [run, nextWord?_of_not_isWord hnext hword]
        simp [returns, Except.map, hword]

/-- A call for a word takes the next token exactly if that is a word. -/
theorem taken_nextWord_iff :
    nextWord.taken s = some t ↔ s.next.1 = .ok t ∧ t.value.isWord = true := by
  have htaken : nextWord.taken s = (nextWord.returns s.next.1).toOption.join := by
    rw [← run_fst]
    rfl
  rw [htaken]
  cases s.next.1 with
  | error d => simp [returns, Except.map, Except.toOption]
  | ok t' =>
    cases hword : t'.value.isWord with
    | true =>
      simp only [returns, Except.map, Except.toOption, hword, if_true, Option.join_some,
        Option.some.injEq, Except.ok.injEq, iff_self_and]
      rintro rfl
      exact hword
    | false =>
      simp only [returns, Except.map, Except.toOption, hword, Bool.false_eq_true, if_false,
        Option.join_some, reduceCtorEq, Except.ok.injEq, false_iff, not_and]
      rintro rfl
      simp [hword]

/-- A call leads to what the stream can become. -/
theorem reaches_run (call : Call) (s : TokenStream) : s.Reaches (call.run s).2 := by
  cases call with
  | next => exact .next_self s
  | peek => exact .peek_self s
  | nextWord => exact .nextWord?_self s

/-- Calls lead to what the stream can become. -/
theorem reaches_after (s : TokenStream) (calls : List Call) : s.Reaches (after s calls) := by
  induction calls generalizing s with
  | nil => exact .refl s
  | cons call calls ih => exact (reaches_run call s).trans (ih _)

/-- Calls are made one after the other. -/
theorem after_append (s : TokenStream) (calls later : List Call) :
    after s (calls ++ later) = after (after s calls) later := by
  induction calls generalizing s with
  | nil => rfl
  | cons call calls ih => exact ih _

/-- A call takes the next token, and leaves the stream as taking it does, or it takes nothing, and
leaves the stream as looking does. -/
theorem run_snd (call : Call) (s : TokenStream) :
    (∃ t, s.next.1 = .ok t ∧ call.taken s = some t ∧ (call.run s).2 = s.next.2) ∨
      (call.taken s = none ∧ (call.run s).2 = s.peek.2) := by
  cases call with
  | peek => exact .inr ⟨rfl, rfl⟩
  | next =>
    cases hnext : s.next.1 with
    | ok t => exact .inl ⟨t, rfl, by simp [taken, run, hnext, Except.map, Except.toOption], rfl⟩
    | error d =>
      refine .inr ⟨?_, (peek_snd_of_error hnext).symm⟩
      simp [taken, run, hnext, Except.map, Except.toOption]
  | nextWord =>
    cases hnext : s.next.1 with
    | error d =>
      rw [taken, run, nextWord?_of_error hnext]
      · exact .inr ⟨rfl, rfl⟩
      · nofun
    | ok t =>
      cases hword : t.value.isWord with
      | true =>
        obtain ⟨value, span⟩ := t
        obtain ⟨text, rfl⟩ := (Token.isWord_iff value).mp hword
        rw [taken, run, nextWord?_of_word hnext]
        · exact .inl ⟨_, rfl, rfl, rfl⟩
        · nofun
      | false =>
        rw [taken, run, nextWord?_of_not_isWord hnext hword]
        · exact .inr ⟨rfl, rfl⟩
        · nofun

/-- Behind a call that found a token the stream is on the line of that token. -/
theorem line_run (hsteady : s.Steady) (h : s.next.1 = .ok t) (call : Call) :
    (call.run s).2.line = t.span.line := by
  have hnext : s.next.2.line = t.span.line := by
    cases hpeeked : s.peeked with
    | some t' =>
      rw [next_of_peeked hpeeked] at h ⊢
      obtain rfl := Except.ok.inj h
      exact hsteady.line_eq t' hpeeked
    | none =>
      rw [next_of_none hpeeked] at h ⊢
      exact line_of_scan (Prod.ext h rfl)
  have hpeek : s.peek.2.line = t.span.line := by
    have hok : s.peek = (.ok t, s.peek.2) := Prod.ext (s.peek_fst.trans h) rfl
    exact (steady_peek hsteady).line_eq t (peeked_of_peek hok)
  rcases run_snd call s with ⟨_, -, -, hrun⟩ | ⟨-, hrun⟩
  · rwa [hrun]
  · rwa [hrun]

/-- Taking a token more takes it in front of the others. -/
theorem takenBy_replicate_succ (s : TokenStream) (n : Nat) :
    takenBy s (List.replicate (n + 1) .next) =
      s.next.1.toOption.toList ++ takenBy s.next.2 (List.replicate n .next) := by
  rw [List.replicate_succ, takenBy]
  cases hnext : s.next.1 <;> simp [taken, run, hnext, Except.map, Except.toOption]

/-- What taking tokens and nothing else hands out is said by the results. -/
theorem takenBy_replicate_congr {s s' : TokenStream} (h : s.result = s'.result) (n : Nat) :
    takenBy s (List.replicate n .next) = takenBy s' (List.replicate n .next) := by
  induction n generalizing s s' with
  | zero => rfl
  | succ n ih =>
    have hfirst : s.next.1 = s'.next.1 := congrFun h 0
    have hrest : s.next.2.result = s'.next.2.result := funext fun k => congrFun h (k + 1)
    rw [takenBy_replicate_succ, takenBy_replicate_succ, hfirst, ih hrest]

/-- Some calls leave the stream as a cursor over its results, moved by one for each token that they
took. These tokens are the ones that taking tokens and nothing else hands out first. -/
theorem after_follows_result (hlasting : s.Lasting) (calls : List Call) :
    takenBy s calls = takenBy s (List.replicate (takenBy s calls).length .next) ∧
      ∀ k, (after s calls).result k = s.result ((takenBy s calls).length + k) := by
  induction calls generalizing s with
  | nil => exact ⟨rfl, fun k => by simp [after, takenBy]⟩
  | cons call calls ih =>
    obtain ⟨htokens, hresult⟩ := ih (hlasting.of_reaches (reaches_run call s))
    rw [takenBy, after]
    rcases run_snd call s with ⟨t, hnext, htaken, hrun⟩ | ⟨htaken, hrun⟩
    · rw [hrun] at htokens hresult ⊢
      rw [htaken, Option.toList_some, List.singleton_append, List.length_cons]
      refine ⟨?_, fun k => ?_⟩
      · rw [takenBy_replicate_succ, hnext, ← htokens]
        rfl
      · rw [hresult, Nat.succ_add, result]
    · -- the results behind the call are those before it
      rw [hrun] at htokens hresult ⊢
      rw [htaken, Option.toList_none, List.nil_append]
      refine ⟨?_, fun k => ?_⟩
      · rw [← takenBy_replicate_congr hlasting.result_peek]
        exact htokens
      · rw [hresult, hlasting.result_peek]

/-- Looking takes nothing, however often it is done. -/
theorem takenBy_peeks (s : TokenStream) (n : Nat) :
    takenBy s (List.replicate n .peek) = [] := by
  induction n generalizing s with
  | zero => rfl
  | succ n ih => exact ih _

/-- What a call returns behind some other calls. -/
theorem run_after (hlasting : s.Lasting) (calls : List Call) (call : Call) :
    (call.run (after s calls)).1 = call.returns (s.result (takenBy s calls).length) := by
  rw [run_fst, ← Nat.add_zero (takenBy s calls).length,
    ← (after_follows_result hlasting calls).2 0]
  rfl

/-- Looking is transparent, in every text and whatever was called before. The tokens that were taken
are those that taking tokens and nothing else hands out first. Let `upcoming` be what it returns
next. Then every call returns that, also behind any number of looks, except that a call for a word
returns and takes nothing if it is no word. The stream is on the line of a token that it found. The
end of input is returned for ever, and so is a failure. -/
theorem looking_is_transparent (text : String) (calls : List Call) :
    let start := ofSource (.ofString text)
    let s := after start calls
    let count := (takenBy start calls).length
    let upcoming := start.result count
    takenBy start calls = takenBy start (List.replicate count .next) ∧
    (∀ (looks : Nat) (call : Call),
      (call.run (after s (List.replicate looks .peek))).1 = call.returns upcoming) ∧
    (∀ t, nextWord.taken s = some t ↔ upcoming = .ok t ∧ t.value.isWord = true) ∧
    (∀ t, upcoming = .ok t → ∀ call : Call, (call.run s).2.line = t.span.line) ∧
    (∀ t, upcoming = .ok t → t.value = .endOfInput →
      ∀ (later : List Call) (call : Call),
        (call.run (after s later)).1 = call.returns (.ok t)) ∧
    ∀ d, upcoming = .error d → ∀ (later : List Call) (call : Call),
      (call.run (after s later)).1 = .error d := by
  intro start s count upcoming
  have hlasting : start.Lasting := lasting_of_clean (Source.clean_ofString text)
  have hreach := reaches_after start calls
  have hlasting' : s.Lasting := hlasting.of_reaches hreach
  have hsteady : s.Steady := steady_of_reaches hreach (steady_of_none rfl)
  obtain ⟨htokens, hresult⟩ := after_follows_result hlasting calls
  have hnext : s.next.1 = upcoming := hresult 0
  refine ⟨htokens, ?_, ?_, ?_, ?_, ?_⟩
  · intro looks call
    rw [run_after hlasting', takenBy_peeks, ← hnext]
    rfl
  · intro t
    rw [taken_nextWord_iff, hnext]
  · intro t ht call
    exact line_run hsteady (hnext.trans ht) call
  · intro t ht hend later call
    rw [run_after hlasting', result_of_end hsteady (hnext.trans ht) hend]
  · intro d hd later call
    have hfirst : s.result 0 = .error d := hnext.trans hd
    rw [run_after hlasting', ← Nat.zero_add (takenBy s later).length,
      hlasting'.result_of_error hfirst, returns_eq_error_iff]

end Call

end CommandTree
