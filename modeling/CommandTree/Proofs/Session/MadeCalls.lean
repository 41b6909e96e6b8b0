import CommandTree.Proofs.Session.Calls
import CommandTree.Proofs.Steps.Readings
import CommandTree.Proofs.Stream.Progress

/-!
# The calls of a reading

A reading is put together from taking tokens and looking at them. `Reading.Makes` lists the calls
that it makes on a stream, in order. A reading is frugal if it takes each token of the stream once:
what its calls take is the front of the sequence, and where it succeeds, the rest of the sequence is
left. The readings of the parser are frugal, because none of them goes on behind the end of input,
which could be taken again and again.
-/

set_option autoImplicit false

namespace CommandTree

namespace Call

/-- The tokens of calls are taken in the order of the calls. -/
theorem takenBy_append (s : TokenStream) (calls later : List Call) :
    takenBy s (calls ++ later) = takenBy s calls ++ takenBy (after s calls) later := by
  induction calls generalizing s with
  | nil => rfl
  | cons call calls ih => rw [List.cons_append, takenBy, takenBy, after, ih, List.append_assoc]

/-- Taking a token takes it, unless that fails. -/
theorem takenBy_next (s : TokenStream) : takenBy s [.next] = s.next.1.toOption.toList :=
  (takenBy_replicate_succ s 0).trans (List.append_nil _)

end Call

namespace Reading

open TokenStream Call

/-- A reading makes calls on a stream, one after the other, and does nothing else to it. What
follows a reading that succeeds makes its calls behind those of the reading; nothing follows a
failure. -/
inductive Makes : {α : Type} → Reading Diagnostic α → TokenStream → List Call → Prop where
  | pure {α : Type} (a : α) (s : TokenStream) : Makes (Pure.pure a : Reading Diagnostic α) s []
  | fail {α : Type} (d : Diagnostic) (s : TokenStream) :
    Makes (Reading.fail d : Reading Diagnostic α) s []
  | next (s : TokenStream) : Makes Reading.next s [.next]
  | peek (s : TokenStream) : Makes Reading.peek s [.peek]
  | bind {α β : Type} {m : Reading Diagnostic α} {f : α → Reading Diagnostic β} {a : α}
    {s s' : TokenStream} {calls later : List Call} :
    Makes m s calls → m s = (.ok a, s') → Makes (f a) s' later → Makes (m >>= f) s (calls ++ later)
  | stop {α β : Type} {m : Reading Diagnostic α} {f : α → Reading Diagnostic β} {d : Diagnostic}
    {s s' : TokenStream} {calls : List Call} :
    Makes m s calls → m s = (.error d, s') → Makes (m >>= f) s calls

variable {α : Type} {m : Reading Diagnostic α} {s s' : TokenStream} {calls : List Call}

/-- The calls lead to where the reading leaves the stream. -/
theorem Makes.after_eq (h : m.Makes s calls) : after s calls = (m s).2 := by
  induction h with
  | pure => rfl
  | fail => rfl
  | next => rfl
  | peek => rfl
  | bind _ hm _ ih ih' =>
    rw [hm] at ih
    rw [after_append, ih, ih', bind_of_ok hm]
  | stop _ hm ih => rw [ih, bind_of_error hm, hm]

/-- A reading takes each token of the stream once. -/
def Frugal (m : Reading Diagnostic α) (s : TokenStream) : Prop :=
  s.Regular → ∃ calls, m.Makes s calls ∧ takenBy s calls <+: s.sequence ∧
    ∀ a s', m s = (.ok a, s') → s.sequence = takenBy s calls ++ s'.sequence

/-- A token that is taken is the front of the sequence. -/
theorem takenBy_next_front (s : TokenStream) : takenBy s [.next] <+: s.sequence := by
  rw [takenBy_next]
  rcases hnext : s.next with ⟨d | t, s'⟩
  · exact List.nil_prefix
  · obtain ⟨rest, hrest⟩ := exists_sequence_of_next hnext
    exact ⟨rest, hrest.symm⟩

/-- What is taken behind a reading that succeeds continues what the reading took. -/
theorem takenBy_append_front {later : List Call} (hsequence : s.sequence =
    takenBy s calls ++ s'.sequence) (hafter : after s calls = s')
    (hlater : takenBy s' later <+: s'.sequence) : takenBy s (calls ++ later) <+: s.sequence := by
  rw [takenBy_append, hafter, hsequence]
  exact (List.prefix_append_right_inj _).mpr hlater

/-- A reading that fails before the next one takes no token twice. -/
theorem frugal_of_error {β : Type} {f : α → Reading Diagnostic β} {d : Diagnostic}
    (hmakes : m.Makes s calls) (hfront : takenBy s calls <+: s.sequence)
    (hresult : m s = (.error d, s')) : (m >>= f).Frugal s := by
  intro _
  refine ⟨calls, hmakes.stop hresult, hfront, ?_⟩
  intro b s'' hb
  simp [bind_of_error hresult] at hb

/-- A reading that took what its calls took leaves the next one to take the others once. -/
theorem frugal_of_ok {β : Type} {f : α → Reading Diagnostic β} {a : α} (hmakes : m.Makes s calls)
    (hresult : m s = (.ok a, s')) (hsequence : s.sequence = takenBy s calls ++ s'.sequence)
    (hf : (f a).Frugal s') : (m >>= f).Frugal s := by
  intro hs
  have hafter : after s calls = s' := by rw [hmakes.after_eq, hresult]
  have hs' : s'.Regular := hafter ▸ hs.of_reaches (reaches_after s calls)
  obtain ⟨later, hmakes', hfront, hok⟩ := hf hs'
  refine ⟨calls ++ later, hmakes.bind hresult hmakes',
    takenBy_append_front hsequence hafter hfront, ?_⟩
  intro b s'' hb
  rw [bind_of_ok hresult] at hb
  rw [takenBy_append, hafter, hsequence, hok b s'' hb, List.append_assoc]

/-- Frugal readings are frugal in sequence. -/
theorem frugal_bind {β : Type} {f : α → Reading Diagnostic β} (hm : m.Frugal s)
    (hf : ∀ a s', m s = (.ok a, s') → (f a).Frugal s') : (m >>= f).Frugal s := by
  intro hs
  obtain ⟨calls, hmakes, hfront, hok⟩ := hm hs
  rcases hresult : m s with ⟨d | a, s'⟩
  · exact frugal_of_error hmakes hfront hresult hs
  · exact frugal_of_ok hmakes hresult (hok a s' hresult) (hf a s' hresult) hs

/-- Taking a token is frugal if nothing is taken behind the end of input. -/
theorem frugal_next {f : Located Token → Reading Diagnostic α}
    (hf : ∀ t s', s.next = (.ok t, s') →
      (f t).Frugal s' ∧ (t.value = .endOfInput → ∃ d, f t = Reading.fail d)) :
    (Reading.next >>= f).Frugal s := by
  rcases hnext : s.next with ⟨d | t, s'⟩
  · exact frugal_of_error (.next s) (takenBy_next_front s) hnext
  · obtain ⟨hfrugal, hend⟩ := hf t s' hnext
    by_cases ht : t.value = .endOfInput
    · -- the end of input stays upcoming, but nothing goes on behind it
      obtain ⟨d, hfail⟩ := hend ht
      intro _
      refine ⟨_, (Makes.next s).bind hnext (hfail ▸ .fail d s'), takenBy_next_front s, ?_⟩
      intro a s'' ha
      rw [bind_of_ok (m := Reading.next) hnext, hfail] at ha
      exact absurd ha fail_ne_ok
    · apply frugal_of_ok (.next s) hnext _ hfrugal
      rw [takenBy_next, hnext]
      exact sequence_of_next hnext ht

/-- Every reading that is put together from taking tokens and looking at them, and takes nothing
behind the end of input, is frugal. -/
theorem composes_frugal : ComposesUpToEnd @Frugal where
  pure a s := by
    intro _
    refine ⟨[], .pure a s, List.nil_prefix, ?_⟩
    intro b s' hb
    rw [(pure_eq_ok hb).2]
    rfl
  fail d s := fun _ => ⟨[], .fail d s, List.nil_prefix, fun _ _ h => absurd h fail_ne_ok⟩
  peek s := fun _ => ⟨_, .peek s, List.nil_prefix, fun _ _ h => sequence_of_peek h⟩
  bind := frugal_bind
  next := frugal_next

end Reading

/-- The parser takes each token once, the end of input included. -/
theorem Tree.takeWhole_takes_once {registry : Registry} (hready : registry.ReadyMade)
    (settings : Settings) {s : TokenStream} (hs : s.Regular) :
    ∃ calls, (takeWhole registry settings).Makes s calls ∧ Call.takenBy s calls <+: s.sequence := by
  obtain ⟨calls, hmakes, hfront, hok⟩ :=
    Reading.composes_frugal.takeRoot hready settings s hs
  rw [takeWhole_eq]
  rcases hroot : takeRoot registry settings s with ⟨d | root, s'⟩
  · exact ⟨calls, hmakes.stop hroot, hfront⟩
  · have hafter : Call.after s calls = s' := by rw [hmakes.after_eq, hroot]
    have hmore : Call.takenBy s (calls ++ [.next]) <+: s.sequence :=
      Reading.takenBy_append_front (hok root s' hroot) hafter (Reading.takenBy_next_front s')
    rcases hnext : s'.next with ⟨d | t, s''⟩
    · exact ⟨_, hmakes.bind hroot ((Reading.Makes.next s').stop hnext), hmore⟩
    · refine ⟨_, hmakes.bind hroot ((Reading.Makes.next s').bind hnext ?_), hmore⟩
      split
      · exact .pure _ s''
      · exact .fail _ s''

end CommandTree
