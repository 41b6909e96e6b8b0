import CommandTree.Proofs.Parsing.ReadyMade
import CommandTree.Proofs.Stream.Accepting

/-!
# Reading types

Each reading of a type accepts exactly the words that declare a type. The readings that take
optional words take as many as there are, and that is right because the words of a type are always
followed by a token that is no word.
-/

set_option autoImplicit false

namespace CommandTree

/-! ## Built-in types -/

/-- A mode is read exactly from a next word that is its keyword. -/
theorem StringMode.read_eq_ok_iff (s s' : TokenStream) (mode : StringMode) :
    StringMode.read s = (.ok mode, s') ↔
      ∃ word span, s.next = (.ok ⟨.word word, span⟩, s') ∧ word = mode.keyword := by
  unfold StringMode.read
  rw [Reading.bind_apply, Reading.next]
  rcases s.next with ⟨d | ⟨token, span⟩, q⟩
  · simp
  rcases token with _ | _ | _ | word | _ <;> try simp [Token.word?, Reading.fail]; done
  constructor
  · intro h
    cases hmode : ofKeyword? word with
    | none => simp [Token.word?, hmode, Reading.fail] at h
    | some mode' =>
      simp only [Token.word?, hmode, Reading.pure_apply, Prod.mk.injEq, Except.ok.injEq] at h
      obtain ⟨rfl, rfl⟩ := h
      exact ⟨word, span, rfl, (keyword_of_ofKeyword? hmode).symm⟩
  · rintro ⟨_, _, h, rfl⟩
    simp only [Prod.mk.injEq, Except.ok.injEq, Located.mk.injEq, Token.word.injEq] at h
    obtain ⟨⟨rfl, rfl⟩, rfl⟩ := h
    simp [Token.word?, ofKeyword?_keyword, Reading.pure_apply]

/-- Reading a mode accepts its keyword and nothing else. -/
theorem StringMode.accepts_read :
    StringMode.read.Accepts fun words mode => words = [mode.keyword] := by
  refine (Reading.Accepts.of_next StringMode.read_eq_ok_iff).congr fun words mode => ?_
  constructor
  · rintro ⟨word, rfl, rfl⟩
    rfl
  · rintro rfl
    exact ⟨_, rfl, rfl⟩

namespace NumberKind

variable {kind : NumberKind}

/-- A word that is refused as a bound starts no bounds. -/
theorem not_declaresBounds_of_bound {word : Located String} {words : List String} {d : Diagnostic}
    {bounds : kind.Value × kind.Value} (h : kind.bound word = .error d) :
    ¬ kind.DeclaresBounds (word.value :: words) bounds := by
  have hword : ∀ value, ¬ kind.IsBound word.value value := by
    intro value hvalue
    rw [isBound_iff word.span, h] at hvalue
    contradiction
  intro hbounds
  unfold DeclaresBounds at hbounds
  split at hbounds
  · contradiction
  · rename_i heq
    rw [← List.head_eq_of_cons_eq heq] at hbounds
    exact hword _ hbounds.1
  · rename_i heq
    rw [← List.head_eq_of_cons_eq heq] at hbounds
    exact hword _ hbounds.1
  · exact hbounds

/-- Two bounds are accepted exactly when they stand in their order. -/
theorem declaresBounds_both {word word' : String} {lower upper : kind.Value}
    (hlower : kind.IsBound word lower) (hupper : kind.IsBound word' upper)
    (words : List String) (bounds : kind.Value × kind.Value) :
    kind.DeclaresBounds (word :: word' :: words) bounds ↔
      words = [] ∧ bounds = (lower, upper) ∧ kind.place lower ≤ kind.place upper := by
  cases words with
  | cons => simp [DeclaresBounds]
  | nil =>
    rw [DeclaresBounds, hlower.iff_eq, hupper.iff_eq, Prod.ext_iff]
    constructor
    · rintro ⟨hfst, hsnd, hle⟩
      rw [hfst, hsnd] at hle
      exact ⟨rfl, ⟨hfst, hsnd⟩, hle⟩
    · rintro ⟨-, ⟨hfst, hsnd⟩, hle⟩
      rw [hfst, hsnd]
      exact ⟨rfl, rfl, hle⟩

/-- Reading bounds accepts exactly the words that declare them. -/
theorem accepts_readBounds (kind : NumberKind) : kind.readBounds.Accepts kind.DeclaresBounds := by
  refine Reading.Accepts.nextWord? (Reading.Accepts.pure _) fun lowerWord => ?_
  refine Reading.Accepts.ofExcept_bind (fun lower hlower => ?_) fun d hd _ _ => ?_
  · have hlower := (isBound_iff _).mpr hlower
    refine Reading.Accepts.nextWord? ?_ fun upperWord => ?_
    · refine (Reading.Accepts.pure _).congr fun words bounds => and_congr_right fun _ => ?_
      rw [DeclaresBounds, hlower.iff_eq, Prod.ext_iff]
    refine Reading.Accepts.ofExcept_bind (fun upper hupper => ?_) fun d hd words bounds h => ?_
    · have hupper := (isBound_iff _).mpr hupper
      have hboth := declaresBounds_both hlower hupper
      by_cases hplace : kind.place upper < kind.place lower
      · rw [if_pos hplace]
        refine Reading.Accepts.fail fun words bounds h => ?_
        have hle := ((hboth words bounds).mp h).2.2
        omega
      · rw [if_neg hplace]
        refine (Reading.Accepts.pure _).congr fun words bounds => ?_
        rw [hboth, and_iff_left (Int.not_lt.mp hplace)]
    · cases words with
      | cons => exact h
      | nil =>
        rw [(isBound_iff upperWord.span).mp h.2.1] at hd
        contradiction
  · exact not_declaresBounds_of_bound hd

end NumberKind

/-- Reading the parameters of a built-in type accepts exactly the words that declare the type. -/
theorem Builtin.accepts_read (builtin : Builtin) : builtin.read.Accepts builtin.Declares := by
  cases builtin with
  | bool => exact (Reading.Accepts.pure _).congr fun _ _ => declares_bool_iff.symm
  | string => exact (StringMode.accepts_read.map _).congr fun _ _ => declares_string_iff.symm
  | number kind => exact (kind.accepts_readBounds.map _).congr fun _ _ => declares_number_iff.symm

/-! ## Extension types -/

namespace ParamRule

/-- Reading a fixed number of words accepts exactly as many words. -/
theorem accepts_readExactly (key : Key) (count left : Nat) (read : List String) :
    (readExactly key count left read).Accepts fun words payload =>
      words.length = left ∧ payload = read.reverse ++ words := by
  induction left generalizing read with
  | zero =>
    refine (Reading.Accepts.pure _).congr fun words payload => ?_
    rw [List.length_eq_zero_iff]
    refine and_congr_right ?_
    rintro rfl
    rw [List.append_nil]
  | succ left ih =>
    refine Reading.Accepts.nextWord? ?_ fun word => ?_
    · refine Reading.Accepts.never (fun s s' payload h => ?_) fun words payload h => ?_
      · obtain ⟨token, q, -, hfail⟩ := Reading.bind_eq_ok h
        simp [Reading.fail] at hfail
      · simp at h
    · refine (ih (word.value :: read)).congr fun words payload => ?_
      simp

/-- Reading all words ends in front of a token that is no word. -/
theorem readTrailing_of_none {read : List String} {s s' : TokenStream}
    (h : s.nextWord? = (.ok Option.none, s')) : readTrailing read s = (.ok read.reverse, s') := by
  rw [readTrailing]
  split <;> simp_all

/-- Reading all words goes on behind a word. -/
theorem readTrailing_of_some {read : List String} {s s' : TokenStream} {word : Located String}
    (h : s.nextWord? = (.ok (some word), s')) :
    readTrailing read s = readTrailing (word.value :: read) s' := by
  rw [readTrailing]
  split <;> simp_all

/-- The words that were read are those that are taken. -/
theorem consumes_of_readTrailing {read payload : List String} {s s' : TokenStream}
    (h : readTrailing read s = (.ok payload, s')) :
    ∃ words, payload = read.reverse ++ words ∧ s.Consumes (words.map .word) s' := by
  fun_induction readTrailing read s with
  | case1 => simp at h
  | case2 read s q hword =>
    rw [Prod.mk.injEq, Except.ok.injEq] at h
    obtain ⟨rfl, rfl⟩ := h
    exact ⟨[], (List.append_nil _).symm, .of_nextWord?_none hword⟩
  | case3 read s word q hword ih =>
    obtain ⟨words, rfl, hconsumes⟩ := ih h
    refine ⟨word.value :: words, by simp, ?_⟩
    exact (TokenStream.Consumes.of_nextWord? hword).trans hconsumes

/-- All words in front of another token are read. -/
theorem readTrailing_of_upcoming (read : List String) {words : List String} {s : TokenStream}
    {other : Token} {rest : List Token} (hother : other.isWord = false)
    (h : s.Upcoming (words.map .word ++ other :: rest)) :
    ∃ s', readTrailing read s = (.ok (read.reverse ++ words), s') ∧
      s'.Upcoming (other :: rest) := by
  induction words generalizing read s with
  | nil =>
    obtain ⟨q, hword, hq⟩ := TokenStream.nextWord?_of_other h hother
    exact ⟨q, by rw [readTrailing_of_none hword, List.append_nil], hq⟩
  | cons word words ih =>
    obtain ⟨span, q, hword, hq⟩ := TokenStream.nextWord?_of_word h
    obtain ⟨s', hread, hs'⟩ := ih (word :: read) hq
    exact ⟨s', by simp [readTrailing_of_some hword, hread], hs'⟩

/-- Reading all words accepts any words. -/
theorem accepts_readTrailing (read : List String) :
    @Reading.Accepts Diagnostic _ (readTrailing read) fun words payload =>
      payload = read.reverse ++ words := by
  refine ⟨consumes_of_readTrailing, ?_⟩
  rintro s words payload other rest rfl hother hs
  exact readTrailing_of_upcoming read hother hs

/-- Taking the words of a rule accepts exactly the words that the rule allows. -/
theorem accepts_consume (key : Key) (rule : ParamRule) :
    (rule.consume key).Accepts fun words payload => rule.Allows words ∧ payload = words := by
  cases rule with
  | none =>
    refine (Reading.Accepts.pure _).congr fun words payload => and_congr_right ?_
    rintro rfl
    rfl
  | exactly count =>
    refine (accepts_readExactly key count count []).congr fun words payload => ?_
    rfl
  | optional =>
    refine Reading.Accepts.nextWord? ?_ fun word => ?_
    · refine (Reading.Accepts.pure _).congr fun words payload => and_congr_right fun _ => ?_
      simp [Allows]
    · refine (Reading.Accepts.pure _).congr fun words payload => ?_
      cases words <;> simp [Allows]
  | trailing =>
    refine (accepts_readTrailing []).congr fun words payload => ?_
    simp [Allows]

end ParamRule

namespace Resolver

/-- A selection is selected by no other word than its keyword. -/
theorem keyword_of_ofKeyword? {word : String} {selection : Selection}
    (h : Selection.ofKeyword? word = some selection) : selection.keyword = word := by
  simpa using List.find?_some h

/-- An entity is read exactly from a next word that is the keyword of a selection. -/
theorem readEntity_eq_ok_iff (key : Key) (s s' : TokenStream) (type : ArgType) :
    readEntity key s = (.ok type, s') ↔
      ∃ word span, s.next = (.ok ⟨.word word, span⟩, s') ∧
        ∃ selection : Selection, word = selection.keyword ∧ type = .ofKey key [word] := by
  unfold readEntity
  rw [Reading.bind_apply, Reading.next]
  rcases s.next with ⟨d | ⟨token, span⟩, q⟩
  · simp
  rcases token with _ | _ | _ | word | _ <;> try simp [Token.word?, Reading.fail]; done
  constructor
  · intro h
    cases hword : Selection.ofKeyword? word with
    | none => simp [Token.word?, hword, Reading.fail] at h
    | some selection =>
      simp only [Token.word?, hword, Reading.pure_apply, Prod.mk.injEq, Except.ok.injEq] at h
      obtain ⟨rfl, rfl⟩ := h
      have hkeyword := keyword_of_ofKeyword? hword
      exact ⟨word, span, rfl, selection, hkeyword.symm, by rw [hkeyword]⟩
  · rintro ⟨_, _, h, selection, rfl, rfl⟩
    simp only [Prod.mk.injEq, Except.ok.injEq, Located.mk.injEq, Token.word.injEq] at h
    obtain ⟨⟨rfl, rfl⟩, rfl⟩ := h
    simp [Token.word?, Selection.ofKeyword?_keyword, Reading.pure_apply]

/-- Reading a score holder accepts no word or one of two words. -/
theorem accepts_readScoreHolder (key : Key) :
    (readScoreHolder key).Accepts fun words type =>
      (words = [] ∨ words = ["true"] ∨ words = ["false"]) ∧ type = .ofKey key words := by
  refine Reading.Accepts.nextWord? ?_ fun word => ?_
  · refine (Reading.Accepts.pure _).congr fun words type => ?_
    simp
  · by_cases hflag : word.value = "true" ∨ word.value = "false"
    · simp only [if_pos hflag]
      refine (Reading.Accepts.pure _).congr fun words type => ?_
      cases words <;> simp [hflag]
    · simp only [if_neg hflag]
      refine Reading.Accepts.fail fun words type h => ?_
      cases words <;> simp_all

/-- What a ready-made resolver reads is what it declares. -/
theorem Reads.accepts {resolver : Resolver} {key : Key} {m : Reading Diagnostic ArgType}
    (h : resolver.Reads key m) : m.Accepts (resolver.Declares key) := by
  cases h with
  | declared hrule =>
    exact ((ParamRule.accepts_consume key _).map _).congr fun _ _ =>
      (declares_declared_iff hrule).symm
  | entity hentity =>
    refine (Reading.Accepts.of_next (readEntity_eq_ok_iff key)).congr fun words type => ?_
    rw [declares_entity_iff hentity]
    constructor
    · rintro ⟨_, rfl, selection, rfl, rfl⟩
      exact ⟨selection, rfl, rfl⟩
    · rintro ⟨selection, rfl, rfl⟩
      exact ⟨_, rfl, selection, rfl, rfl⟩
  | scoreHolder hholder =>
    exact (accepts_readScoreHolder key).congr fun _ _ => (declares_scoreHolder_iff hholder).symm
  | brigadier hbuiltin =>
    exact (Builtin.accepts_read _).congr fun _ _ => (declares_brigadier_iff hbuiltin).symm

/-- A ready-made resolver accepts exactly what it declares. -/
theorem accepts_read {resolver : Resolver} {key : Key} (hready : resolver.isReadyMade = true)
    (hclaims : resolver.claims key = true) :
    (resolver.read key).Accepts (resolver.Declares key) := by
  obtain ⟨m, hreads, hread⟩ := exists_reads hready hclaims
  rw [hread]
  exact hreads.accepts.mapError _

end Resolver

/-! ## All types -/

/-- A ready-made resolver that claims a key accepts exactly the words that declare a type for it. -/
theorem Registry.accepts_read_of_find? {registry : Registry} (hready : registry.ReadyMade)
    {key : Key} {resolver : Resolver} (h : registry.find? key = some resolver) :
    (resolver.read key).Accepts (resolver.Declares key) := by
  unfold find? at h
  have hclaims := List.find?_some h
  exact Resolver.accepts_read (hready resolver (List.mem_of_find?_eq_some h)) hclaims

/-- Reading a type accepts exactly the words that declare one, of which the first is given. -/
theorem Registry.accepts_resolve {registry : Registry} (hready : registry.ReadyMade)
    (defaultSpace : String) (word : Located String) :
    (registry.resolve defaultSpace word).Accepts fun words type =>
      registry.Types defaultSpace (word.value :: words) (some type) := by
  have hresolves := registry.resolvesTo hready defaultSpace word
  generalize registry.resolve defaultSpace word = m at hresolves
  cases hresolves with
  | builtin builtin htypes => exact builtin.accepts_read.congr fun _ _ => (htypes _ _).symm
  | reads hreads htypes => exact hreads.accepts.congr fun _ _ => (htypes _ _).symm
  | refuses problem _ _ hnone => exact .fail hnone

end CommandTree
