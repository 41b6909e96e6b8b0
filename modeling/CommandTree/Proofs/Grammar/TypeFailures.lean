import CommandTree.Proofs.Grammar.TypeReadings
import CommandTree.Proofs.Parsing.ReadyMade
import CommandTree.Proofs.Parsing.Recursion
import CommandTree.Proofs.Stream.Pinpointing

/-!
# Where reading a type fails

Each reading of a type points at the first token that no type allows. A keyword that is unknown and
a bound that is no number cannot be carried on, and neither can a bound below the one before it.
Every reading is short of words only where words could have followed: a missing keyword or a missing
parameter is reported at the token that stands in its place.
-/

set_option autoImplicit false

namespace CommandTree

open Reading (Extends Pinpoints PinpointsBehind)

/-! ## Built-in types -/

/-- A failure to read a mode points at the first token that is no keyword. -/
theorem StringMode.pinpoints_read :
    StringMode.read.Pinpoints fun words mode =>
      ∃ mode', words = [keyword mode'] ∧ mode = mode' := by
  apply Pinpoints.keyword .singleWord ofKeyword?_keyword keyword_of_ofKeyword? id
  · rintro ⟨value, span⟩ hother
    cases value with
    | word => contradiction
    | _ => exact ⟨_, rfl, rfl⟩
  · intro text span mode hmode
    simp only [Token.word?, hmode, id]
  · intro text span hmode
    exact ⟨.unknownStringMode text, rfl, by simp only [Token.word?, hmode]⟩

namespace NumberKind

variable {kind : NumberKind}

/-- A failure to read bounds points at the first word that is no bound or is out of order. -/
theorem pinpoints_readBounds (kind : NumberKind) :
    kind.readBounds.Pinpoints kind.DeclaresBounds := by
  apply Pinpoints.nextWord?
  · exact ⟨[], _, rfl⟩
  · exact Or.inl ⟨_, rfl, rfl⟩
  intro lowerWord
  apply PinpointsBehind.ofExcept_bind
  · intro lower hlower
    have hlower := (isBound_iff _).mpr hlower
    have halone : kind.DeclaresBounds [lowerWord.value] (lower, kind.greatest) := ⟨hlower, rfl⟩
    apply PinpointsBehind.goesOn
    apply Pinpoints.nextWord?
    · exact ⟨[], _, halone⟩
    · exact Or.inl ⟨_, rfl, halone⟩
    intro upperWord
    apply PinpointsBehind.ofExcept_bind
    · intro upper hupper
      have hboth := declaresBounds_both hlower ((isBound_iff _).mpr hupper)
      by_cases hplace : kind.place upper < kind.place lower
      · rw [if_pos hplace]
        refine .refuses _ rfl rfl ?_
        rintro ⟨more, bounds, h⟩
        have hle := ((hboth more bounds).mp h).2.2
        omega
      · rw [if_neg hplace]
        apply PinpointsBehind.goesOn
        apply Pinpoints.pure
        · exact (hboth _ _).mpr ⟨rfl, rfl, Int.not_lt.mp hplace⟩
        · intro word words bounds h
          have hnil := ((hboth _ _).mp h).1
          contradiction
    · intro d hd
      obtain ⟨problem, hproblem, hkind, -⟩ := exists_of_bound_eq_error hd
      refine ⟨⟨problem, hproblem, hkind⟩, ?_⟩
      rintro ⟨more, bounds, h⟩
      cases more with
      | cons => exact h
      | nil =>
        have hupper := (isBound_iff upperWord.span).mp h.2.1
        rw [hd] at hupper
        contradiction
  · intro d hd
    obtain ⟨problem, hproblem, hkind, -⟩ := exists_of_bound_eq_error hd
    refine ⟨⟨problem, hproblem, hkind⟩, ?_⟩
    rintro ⟨more, bounds, h⟩
    exact not_declaresBounds_of_bound hd h

end NumberKind

/-- A failure to read the parameters of a built-in type points at the first token that may not stand
there. -/
theorem Builtin.pinpoints_read (builtin : Builtin) : builtin.read.Pinpoints builtin.Declares := by
  cases builtin with
  | bool =>
    apply Pinpoints.pure .bool
    intro word words type h
    cases h
  | string =>
    refine (StringMode.pinpoints_read.map _).congr fun words type => ?_
    simp [declares_string_iff]
  | number kind =>
    exact (kind.pinpoints_readBounds.map _).congr fun _ _ => declares_number_iff.symm

/-! ## Extension types -/

namespace ParamRule

/-- A failure to read a fixed number of words points at the first token that is no word. -/
theorem pinpoints_readExactly (key : Key) (count left : Nat) (read : List String) :
    (readExactly key count left read).Pinpoints fun words payload =>
      words.length = left ∧ payload = read.reverse ++ words := by
  induction left generalizing read with
  | zero =>
    apply Pinpoints.pure
    · exact ⟨rfl, (List.append_nil _).symm⟩
    · rintro word words payload ⟨hlength, -⟩
      contradiction
  | succ left ih =>
    apply Pinpoints.nextWord?
    · exact ⟨List.replicate (left + 1) "", _, List.length_replicate, rfl⟩
    · refine Or.inr ⟨?_, .missingParameters key count read.length, fun _ => rfl, rfl⟩
      rintro payload ⟨hlength, -⟩
      contradiction
    · intro word
      apply PinpointsBehind.goesOn
      refine (ih (word.value :: read)).congr fun words payload => ?_
      simp

/-- Reading all words that are left takes every word. -/
theorem takesAll_of_readTrailing {read payload : List String} {s s' : TokenStream}
    (h : readTrailing read s = (.ok payload, s')) :
    Reading.TakesAll (fun words payload => payload = read.reverse ++ words) s s' payload := by
  fun_induction readTrailing read s with
  | case1 => simp at h
  | case2 read s q hword =>
    rw [Prod.mk.injEq, Except.ok.injEq] at h
    obtain ⟨rfl, rfl⟩ := h
    exact .of_nextWord?_none hword (List.append_nil _).symm
  | case3 read s word q hword ih =>
    have hrest := ih h
    simp only [List.reverse_cons, List.append_assoc, List.singleton_append] at hrest
    exact hrest.behind (TokenStream.sequence_of_nextWord? hword)

/-- Reading all words that are left fails only for characters that form no token. -/
theorem kind_of_readTrailing {read : List String} {s s' : TokenStream} {d : Diagnostic}
    (h : readTrailing read s = (.error d, s')) : d.kind = .lexical := by
  fun_induction readTrailing read s with
  | case1 read s e q hword =>
    rw [Prod.mk.injEq, Except.error.injEq] at h
    rw [← h.1]
    exact TokenStream.kind_of_nextWord? hword
  | case2 => simp at h
  | case3 read s word q hword ih => exact ih h

/-- A failure to take the words of a rule points at the first token that the rule does not allow. -/
theorem pinpoints_consume (key : Key) (rule : ParamRule) :
    (rule.consume key).Pinpoints fun words payload => rule.Allows words ∧ payload = words := by
  cases rule with
  | none =>
    apply Pinpoints.pure ⟨rfl, rfl⟩
    rintro word words payload ⟨hwords, -⟩
    contradiction
  | exactly count => exact pinpoints_readExactly key count count []
  | optional =>
    apply Pinpoints.nextWord?
    · exact ⟨[], [], Nat.zero_le 1, rfl⟩
    · exact Or.inl ⟨[], rfl, Nat.zero_le 1, rfl⟩
    · intro word
      apply PinpointsBehind.goesOn
      apply Pinpoints.pure ⟨Nat.le_refl 1, rfl⟩
      rintro other words payload ⟨hlength, -⟩
      simp [Allows] at hlength
  | trailing =>
    constructor
    · intro s s' payload h
      simpa [Allows] using takesAll_of_readTrailing h
    · intro s s' d h hkind
      exact absurd (kind_of_readTrailing h) hkind

end ParamRule

namespace Resolver

variable {key : Key}

/-- A failure to read an entity points at the first token that is no selection. -/
theorem pinpoints_readEntity (key : Key) :
    (readEntity key).Pinpoints fun words type =>
      ∃ selection, words = [Selection.keyword selection] ∧
        type = .ofKey key [selection.keyword] := by
  apply Pinpoints.keyword .entity Selection.ofKeyword?_keyword keyword_of_ofKeyword?
    fun selection => ArgType.ofKey key [selection.keyword]
  · rintro ⟨value, span⟩ hother
    cases value with
    | word => contradiction
    | _ => exact ⟨_, rfl, rfl⟩
  · intro text span selection hselection
    simp only [Token.word?, hselection, keyword_of_ofKeyword? hselection]
  · intro text span hselection
    exact ⟨.unknownSelection text, rfl, by simp only [Token.word?, hselection]⟩

/-- A failure to read a score holder points at the first token that is neither of the two words. -/
theorem pinpoints_readScoreHolder (key : Key) :
    (readScoreHolder key).Pinpoints fun words type =>
      (words = [] ∨ words = ["true"] ∨ words = ["false"]) ∧ type = .ofKey key words := by
  apply Pinpoints.nextWord?
  · exact ⟨[], _, Or.inl rfl, rfl⟩
  · exact Or.inl ⟨_, rfl, Or.inl rfl, rfl⟩
  intro word
  by_cases hflag : word.value = "true" ∨ word.value = "false"
  · apply PinpointsBehind.goesOn
    simp only [if_pos hflag]
    apply Pinpoints.pure
    · exact ⟨Or.inr (by simpa using hflag), rfl⟩
    · rintro other words type ⟨hwords, -⟩
      simp at hwords
  · refine .refuses (.notAFlag key word.value) rfl (by simp only [if_neg hflag]) ?_
    rintro ⟨more, type, hwords, -⟩
    simp only [List.singleton_append, reduceCtorEq, List.cons.injEq, false_or] at hwords
    exact hflag (hwords.imp And.left And.left)

/-- What a ready-made resolver reads points at the first word that it does not declare. -/
theorem Reads.pinpoints {resolver : Resolver} {m : Reading Diagnostic ArgType}
    (h : resolver.Reads key m) : m.Pinpoints (resolver.Declares key) := by
  cases h with
  | declared hrule =>
    exact ((ParamRule.pinpoints_consume key _).map _).congr fun _ _ =>
      (declares_declared_iff hrule).symm
  | entity hentity =>
    exact (pinpoints_readEntity key).congr fun _ _ => (declares_entity_iff hentity).symm
  | scoreHolder hholder =>
    exact (pinpoints_readScoreHolder key).congr fun _ _ => (declares_scoreHolder_iff hholder).symm
  | brigadier hbuiltin =>
    exact (Builtin.pinpoints_read _).congr fun _ _ => (declares_brigadier_iff hbuiltin).symm

end Resolver

/-! ## All types -/

namespace Registry

variable {registry : Registry} {defaultSpace : String}

/-- Words that are there declare a type, and no literal. -/
theorem types_cons_iff {word : String} {words : List String} {type : Option ArgType} :
    registry.Types defaultSpace (word :: words) type ↔
      ∃ type', registry.Types defaultSpace (word :: words) (some type') ∧ type = some type' := by
  constructor
  · intro h
    cases type with
    | none => simp [types_none_iff] at h
    | some type => exact ⟨type, h, rfl⟩
  · rintro ⟨type', h, rfl⟩
    exact h

/-- Behind the name of a type its words are read; a name that no type has is refused. -/
theorem pinpointsBehind_resolve (hready : registry.ReadyMade) (word : Located String) :
    PinpointsBehind word (do
      let type ← registry.resolve defaultSpace word
      pure (some type)) (registry.Types defaultSpace) := by
  have hresolves := registry.resolvesTo hready defaultSpace word
  generalize registry.resolve defaultSpace word = m at hresolves
  cases hresolves with
  | builtin builtin htypes =>
    refine .goesOn ((builtin.pinpoints_read.map some).congr fun words type => ?_)
    rw [types_cons_iff]
    simp only [htypes]
  | reads hreads htypes =>
    refine .goesOn ((hreads.pinpoints.map some).congr fun words type => ?_)
    rw [types_cons_iff]
    simp only [htypes]
  | refuses problem hkind _ hnone =>
    refine .refuses problem hkind rfl ?_
    rintro ⟨more, type, htypes⟩
    obtain ⟨type', htypes', -⟩ := types_cons_iff.mp htypes
    exact hnone more type' htypes'

end Registry

/-- Taking a type points at the first word that no type of the registry has there. -/
theorem Tree.pinpoints_takeType {registry : Registry} (hready : registry.ReadyMade)
    (settings : Settings) :
    (takeType registry settings).Pinpoints (registry.Types settings.defaultSpace) := by
  rw [takeType_eq]
  apply Pinpoints.nextWord?
  · exact ⟨[], none, .literal⟩
  · exact Or.inl ⟨none, rfl, .literal⟩
  · exact registry.pinpointsBehind_resolve hready

end CommandTree
