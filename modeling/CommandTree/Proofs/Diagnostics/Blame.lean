import CommandTree.Diagnostic

/-!
# Which token is to blame

A diagnostic blames a token for a set of token lists: what stands before the token can be completed
to one of the lists, and with the token it cannot. Lists of the set may also be shorter than what
was read, if more may follow them.

Where tokens were taken in front of a part of what is read, what is to blame for the part is to
blame for the whole. `Diagnostic.Blames.behind` asks for two things. Every list of the part
completes the tokens in front of it. And every list of the whole that starts with these tokens and
the one that is really next goes on with a list of the part.
-/

set_option autoImplicit false

namespace CommandTree

/-- Some list starts with the given tokens. -/
def Viable (P : List Token → Prop) (ts : List Token) : Prop := ∃ more, P (ts ++ more)

/-- Some list goes along with the given tokens, or with as many of them as it has. -/
def Meets (P : List Token → Prop) (ts : List Token) : Prop :=
  ∃ us rest more, P us ∧ us ++ rest = ts ++ more

/-- The diagnostic points at the first token with which no list of the set can be reached any more.
-/
def Diagnostic.Blames (d : Diagnostic) (P : List Token → Prop) (read : List (Located Token)) :
    Prop :=
  (∀ name, d.problem ≠ .argumentAtRoot name) ∧ ∃ taken t rest, read = taken ++ t :: rest ∧
    d.span = some t.span ∧ Viable P (taken.map Located.value) ∧
    ¬ Meets P (taken.map Located.value ++ [t.value])

namespace Diagnostic.Blames

variable {P Q : List Token → Prop} {read taken : List (Located Token)} {d : Diagnostic}

/-- A diagnostic at the next token blames it if the tokens before it can be carried on, but not with
this one. -/
theorem at_next {t : Located Token} {rest : List (Located Token)} {problem : Problem}
    (hproblem : ∀ name, problem ≠ .argumentAtRoot name) (hread : read = t :: rest)
    (hviable : ∃ us, P us) (hrefused : ∀ us rest more, P us → us ++ rest ≠ t.value :: more) :
    (atSpan problem t.span).Blames P read := by
  refine ⟨hproblem, [], t, rest, hread, rfl, hviable, ?_⟩
  rintro ⟨us, rest', more, hus, heq⟩
  exact hrefused us rest' more hus heq

/-- What is to blame for a part is to blame for the whole. -/
theorem behind {before : List (Located Token)} (hbefore : before = taken ++ read)
    (hviable : ∀ us, Q us → Viable P (taken.map Located.value ++ us))
    (hmeets : ∀ t others us rest more, read = t :: others → P us →
      us ++ rest = taken.map Located.value ++ t.value :: more →
      ∃ us' rest', Q us' ∧ us' ++ rest' = t.value :: more)
    (h : d.Blames Q read) : d.Blames P before := by
  obtain ⟨hproblem, inner, t, rest, hread, hspan, ⟨more, hinner⟩, hrefused⟩ := h
  refine ⟨hproblem, taken ++ inner, t, rest, ?_, hspan, ?_, ?_⟩
  · rw [hbefore, hread, List.append_assoc]
  · obtain ⟨more', hwhole⟩ := hviable _ hinner
    refine ⟨more ++ more', ?_⟩
    simpa using hwhole
  · rintro ⟨us, rest', more, hus, heq⟩
    apply hrefused
    cases inner with
    | nil =>
      obtain ⟨us', rest', hus', heq'⟩ := hmeets t rest us rest' more hread hus (by simpa using heq)
      exact ⟨us', rest', more, hus', heq'⟩
    | cons first inner =>
      have heq : us ++ rest' = taken.map Located.value ++
          first.value :: (inner.map Located.value ++ [t.value] ++ more) := by simpa using heq
      obtain ⟨us', rest', hus', heq'⟩ := hmeets first _ us rest' _ hread hus heq
      exact ⟨us', rest', more, hus', by simpa using heq'⟩

end Diagnostic.Blames

end CommandTree
