import CommandTree.Proofs.Grammar.Scopes
import CommandTree.Proofs.Grammar.TreeFailures

/-!
# Diagnostics that point at an earlier place

Two problems of a scope are reported together with an earlier place: a scope that is still open at
the end of input, with the brace that opened it, and a child whose name was used before, with the
name that was there first. The parser knows both places from the calls that it is in. Here they are
found in the flat list of tokens.

Whatever the parser has behind it in a scope consists of complete nodes. So the brace of the scope
is the last one that stays open, and the names of these nodes are the ones that were noted.
-/

set_option autoImplicit false

namespace CommandTree

/-- The diagnostic is about an open scope and points back at a token of it. -/
inductive Diagnostic.PointsBack (read : List (Located Token)) : Diagnostic → Prop where
  /-- At the end of input, at the brace that opens the scope. -/
  | unclosed {before inner : List (Located Token)} {owner : Located String} {opening : Span}
      {names : List (Located String)} (stop : Span) :
    read = before ++ [⟨.endOfInput, stop⟩] → OpensScope before owner opening inner →
    Nodes inner names →
    PointsBack read (.atSpan (.unclosedScope owner.value opening) stop)
  /-- At the name of a node in the scope, at the only child with the same name. -/
  | duplicate {before inner rest : List (Located Token)} {owner : Located String} {opening : Span}
      {names : List (Located String)} (child : Located String) (first : Span) :
    read = before ++ ⟨.word child.value, child.span⟩ :: rest →
    OpensScope before owner opening inner → Nodes inner names →
    (names.map Located.value).Nodup →
    names.filter (·.value = child.value) = [⟨child.value, first⟩] →
    PointsBack read (.atSpan (.duplicateChild ⟨owner.value, child.value⟩ first) child.span)

/-- Only a problem of structure points at other places. -/
theorem Problem.related_eq_nil {problem : Problem} (h : problem.kind ≠ .structural) :
    problem.related = [] := by
  cases problem with
  | unclosedScope => exact absurd rfl h
  | duplicateChild => exact absurd rfl h
  | _ => rfl

/-- A diagnostic about characters points at no other place. -/
theorem Diagnostic.related_of_lexical {d : Diagnostic} (h : d.kind = .lexical) :
    d.problem.related = [] := by
  apply Problem.related_eq_nil
  rw [show d.problem.kind = .lexical from h]
  exact nofun

namespace Tree

variable {registry : Registry} {settings : Settings}

/-! ## Complete nodes -/

/-- A head that is taken consists of the word for the name and of words for the type. -/
theorem exists_words_of_takeHead (hready : registry.ReadyMade) {s s' : TokenStream} {head : Head}
    (h : takeHead registry settings s = (.ok head, s')) :
    ∃ type, s.sequence = ⟨.word head.name.value, head.name.span⟩ :: (type ++ s'.sequence) ∧
      ∀ t ∈ type, t.value.isWord = true := by
  obtain ⟨q, hname, type, words, hq, hvalues, -, -⟩ := takesAll_of_takeHead hready h
  refine ⟨type, by rw [hname, hq], fun t ht => ?_⟩
  have hword : t.value ∈ words.map Token.word := hvalues ▸ List.mem_map_of_mem ht
  obtain ⟨text, -, htext⟩ := List.mem_map.mp hword
  rw [← htext]
  rfl

mutual

/-- A body that is taken ends a node: it is a semicolon, or complete nodes between braces. -/
theorem endsNode_of_takeBody (hready : registry.ReadyMade) {level : Nat} {head : Head}
    {s s' : TokenStream} {t : Tree} (h : takeBody registry settings level head s = (.ok t, s')) :
    ∃ body, s.sequence = body ++ s'.sequence ∧ EndsNode body := by
  cases hlimit : settings.maxDepth.filter (· < level) with
  | some limit =>
    rw [takeBody_of_limit head hlimit] at h
    exact absurd h Reading.fail_ne_ok
  | none =>
    rw [takeBody_eq head hlimit] at h
    obtain ⟨⟨value, span⟩, q, hnext, h⟩ := Reading.bind_eq_ok h
    cases value with
    | terminator =>
      obtain ⟨-, rfl⟩ := Reading.pure_eq_ok h
      exact ⟨_, TokenStream.sequence_of_next hnext (by simp), .terminator span⟩
    | openScope =>
      have hlt := TokenStream.size_next_lt hnext (by simp)
      have hsequence := TokenStream.sequence_of_next hnext (by simp)
      obtain ⟨children, q', hchildren, h⟩ := Reading.bind_eq_ok h
      obtain ⟨-, rfl⟩ := Reading.pure_eq_ok h
      obtain ⟨inner, names, closing, hq, hnodes⟩ := nodes_of_takeChildren hready hchildren
      refine ⟨_, ?_, .scope span closing hnodes⟩
      rw [hsequence, hq]
      simp
    | _ => exact absurd h Reading.fail_ne_ok
termination_by s.size
decreasing_by exact hlt

/-- The children that are taken are complete nodes in front of a closing brace. -/
theorem nodes_of_takeChildren (hready : registry.ReadyMade) {level : Nat} {parent : String}
    {opening : Span} {seen : Seen} {read ts : List Tree} {s s' : TokenStream}
    (h : takeChildren registry settings level parent opening seen read s = (.ok ts, s')) :
    ∃ inner names closing, s.sequence = inner ++ ⟨.closeScope, closing⟩ :: s'.sequence ∧
      Nodes inner names := by
  rw [takeChildren_eq] at h
  obtain ⟨⟨value, span⟩, q, hpeek, h⟩ := Reading.bind_eq_ok h
  have hle := TokenStream.size_le_of_reaches (TokenStream.Reaches.peek_of_eq hpeek)
  rw [TokenStream.sequence_of_peek hpeek]
  split at h
  · rename_i hclose
    obtain rfl : value = .closeScope := hclose
    obtain ⟨t, q', hnext, h⟩ := Reading.bind_eq_ok h
    obtain ⟨-, rfl⟩ := Reading.pure_eq_ok h
    have hsame := TokenStream.next_of_peeked (TokenStream.peeked_of_peek hpeek)
    cases hsame.symm.trans hnext
    exact ⟨[], [], span, TokenStream.sequence_of_next hnext (by simp), .nil⟩
  · cases hproblem : childProblem parent opening seen value with
    | some problem =>
      rw [hproblem] at h
      exact absurd h Reading.fail_ne_ok
    | none =>
      rw [hproblem] at h
      obtain ⟨head, s₁, hhead, h⟩ := Reading.bind_eq_ok h
      obtain ⟨child, s₂, hbody, h⟩ := Reading.bind_eq_ok h
      have hlt₁ := Nat.lt_of_lt_of_le (size_takeHead_lt hhead) hle
      have hlt₂ := Nat.lt_trans (size_takeBody_lt hbody) hlt₁
      obtain ⟨type, hq, hwords⟩ := exists_words_of_takeHead hready hhead
      obtain ⟨body, hs₁, hends⟩ := endsNode_of_takeBody hready hbody
      obtain ⟨inner, names, closing, hs₂, hnodes⟩ := nodes_of_takeChildren hready h
      refine ⟨_, _, closing, ?_, .cons head.name hwords hends hnodes⟩
      rw [hq, hs₁, hs₂]
      simp
termination_by s.size
decreasing_by
  · exact hlt₁
  · exact hlt₂

end

/-! ## Names that were noted -/

/-- The names of the children differ, and what was noted tells the place of each. -/
structure Noted (seen : Seen) (names : List (Located String)) : Prop where
  /-- No name is there twice. -/
  nodup : (names.map Located.value).Nodup
  /-- The children of a name are the one that was noted, if there is one. -/
  filter_eq : ∀ name, names.filter (·.value = name) =
    ((seen.lookup name).map (Located.mk name)).toList

/-- Before the first child no name was seen. -/
theorem Noted.nil : Noted [] [] := ⟨List.nodup_nil, fun _ => rfl⟩

/-- Noting the name of a further child keeps the names distinct if the name was not seen before. -/
theorem Noted.concat {seen : Seen} {names : List (Located String)} (h : Noted seen names)
    {name : Located String} (hfresh : seen.lookup name.value = none) :
    Noted ((name.value, name.span) :: seen) (names ++ [name]) := by
  have hnone : names.filter (·.value = name.value) = [] := by
    rw [h.filter_eq, hfresh]
    rfl
  constructor
  · have hmem : name.value ∉ names.map Located.value := by
      intro hmem
      obtain ⟨other, hother, hsame⟩ := List.mem_map.mp hmem
      exact List.filter_eq_nil_iff.mp hnone other hother (decide_eq_true hsame)
    rw [List.map_append, List.nodup_append]
    refine ⟨h.nodup, by simp, fun text htext other hother => ?_⟩
    rw [List.map_singleton, List.mem_singleton] at hother
    rw [hother]
    exact ne_of_mem_of_not_mem htext hmem
  · intro text
    rw [List.filter_append, List.lookup_cons]
    by_cases hname : name.value = text
    · subst hname
      rw [hnone]
      simp
    · have hne : text ≠ name.value := fun heq => hname heq.symm
      rw [h.filter_eq, beq_eq_false_iff_ne.mpr hne]
      simp [hname]

/-! ## Failures inside a scope -/

/-- A failure to take a name points at no other place if the problems it may report do not. -/
theorem related_of_takeName {problem : Token → Problem} (hproblem : ∀ t, (problem t).related = [])
    {s s' : TokenStream} {d : Diagnostic} (h : takeName problem s = (.error d, s')) :
    d.problem.related = [] := by
  rw [takeName_eq] at h
  obtain hnext | ⟨⟨value, span⟩, q, -, h⟩ := Reading.bind_eq_error h
  · exact Diagnostic.related_of_lexical (TokenStream.kind_of_next hnext)
  cases value with
  | word => exact absurd h Reading.pure_ne_error
  | _ =>
    obtain ⟨rfl, -⟩ := Reading.fail_eq_error h
    exact hproblem _

/-- What is wrong with a head is reported without an earlier place. -/
theorem related_of_takeHead (hready : registry.ReadyMade) {s s' : TokenStream} {d : Diagnostic}
    (h : takeHead registry settings s = (.error d, s')) : d.problem.related = [] := by
  rw [takeHead_eq] at h
  obtain hname | ⟨name, q, -, h⟩ := Reading.bind_eq_error h
  · exact related_of_takeName (fun _ => rfl) hname
  obtain htype | ⟨type, q', -, h⟩ := Reading.bind_eq_error h
  · by_cases hlexical : d.kind = .lexical
    · exact Diagnostic.related_of_lexical hlexical
    · have htyping := ((pinpoints_takeType hready settings).pointsAtFirst htype hlexical).1
      apply Problem.related_eq_nil
      rw [show d.problem.kind = .typing from htyping]
      exact nofun
  · exact absurd h Reading.pure_ne_error

/-- A problem with a child points back at the brace that opens the scope, or at the sibling of the
same name. -/
theorem pointsBack_of_childProblem {owner : Located String} {opening span : Span} {seen : Seen}
    {before inner : List (Located Token)} {names : List (Located String)} {value : Token}
    {problem : Problem} {s s' : TokenStream} (hscope : OpensScope before owner opening inner)
    (hnodes : Nodes inner names) (hnoted : Noted seen names)
    (hpeek : s.peek = (.ok ⟨value, span⟩, s'))
    (h : childProblem owner.value opening seen value = some problem) :
    (Diagnostic.atSpan problem span).PointsBack (before ++ s'.sequence) := by
  have hnext := TokenStream.next_of_peeked (TokenStream.peeked_of_peek hpeek)
  cases value with
  | endOfInput =>
    obtain rfl := Option.some.inj h
    rw [TokenStream.sequence_of_end hnext rfl]
    exact .unclosed span rfl hscope hnodes
  | word text =>
    obtain ⟨first, hfirst, rfl⟩ := Option.map_eq_some_iff.mp h
    rw [TokenStream.sequence_of_next hnext (by simp)]
    refine .duplicate ⟨text, span⟩ first rfl hscope hnodes hnoted.nodup ?_
    rw [hnoted.filter_eq, hfirst]
    rfl
  | _ => contradiction

mutual

/-- A failure in the body of a node points back, if at all, at a token of an open scope. -/
theorem pointsBack_of_takeBody (hready : registry.ReadyMade) {level : Nat} {head : Head}
    {before : List (Located Token)} {s s' : TokenStream} {d : Diagnostic}
    (hhead : EndsInHead before head.name)
    (h : takeBody registry settings level head s = (.error d, s'))
    (hrelated : d.problem.related ≠ []) : d.PointsBack (before ++ s.sequence) := by
  cases hlimit : settings.maxDepth.filter (· < level) with
  | some limit =>
    rw [takeBody_of_limit head hlimit] at h
    obtain ⟨rfl, -⟩ := Reading.fail_eq_error h
    exact absurd rfl hrelated
  | none =>
    rw [takeBody_eq head hlimit] at h
    obtain hnext | ⟨⟨value, span⟩, q, hnext, h⟩ := Reading.bind_eq_error h
    · exact absurd (Diagnostic.related_of_lexical (TokenStream.kind_of_next hnext)) hrelated
    cases value with
    | terminator => exact absurd h Reading.pure_ne_error
    | openScope =>
      have hlt := TokenStream.size_next_lt hnext (by simp)
      obtain hchildren | ⟨children, q', -, h⟩ := Reading.bind_eq_error h
      · have hscope : OpensScope (before ++ [⟨.openScope, span⟩]) head.name span [] :=
          ⟨before, hhead, rfl⟩
        rw [TokenStream.sequence_of_next hnext (by simp), List.append_cons]
        exact pointsBack_of_takeChildren hready hscope .nil .nil hchildren hrelated
      · exact absurd h Reading.pure_ne_error
    | _ =>
      obtain ⟨rfl, -⟩ := Reading.fail_eq_error h
      exact absurd rfl hrelated
termination_by s.size
decreasing_by exact hlt

/-- The loop over the children of a scope has complete nodes behind it, whose names it has noted. -/
theorem pointsBack_of_takeChildren (hready : registry.ReadyMade) {level : Nat}
    {owner : Located String} {opening : Span} {seen : Seen} {read : List Tree}
    {before inner : List (Located Token)} {names : List (Located String)} {s s' : TokenStream}
    {d : Diagnostic} (hscope : OpensScope before owner opening inner) (hnodes : Nodes inner names)
    (hnoted : Noted seen names)
    (h : takeChildren registry settings level owner.value opening seen read s = (.error d, s'))
    (hrelated : d.problem.related ≠ []) : d.PointsBack (before ++ s.sequence) := by
  rw [takeChildren_eq] at h
  obtain hpeek | ⟨⟨value, span⟩, q, hpeek, h⟩ := Reading.bind_eq_error h
  · exact absurd (Diagnostic.related_of_lexical (TokenStream.kind_of_peek hpeek)) hrelated
  have hle := TokenStream.size_le_of_reaches (TokenStream.Reaches.peek_of_eq hpeek)
  rw [TokenStream.sequence_of_peek hpeek]
  split at h
  · obtain hnext | ⟨t, q', -, h⟩ := Reading.bind_eq_error h
    · exact absurd (Diagnostic.related_of_lexical (TokenStream.kind_of_next hnext)) hrelated
    · exact absurd h Reading.pure_ne_error
  cases hproblem : childProblem owner.value opening seen value with
  | some problem =>
    rw [hproblem] at h
    obtain ⟨rfl, rfl⟩ := Reading.fail_eq_error h
    exact pointsBack_of_childProblem hscope hnodes hnoted hpeek hproblem
  | none =>
    rw [hproblem] at h
    obtain hhead | ⟨head, s₁, hhead, h⟩ := Reading.bind_eq_error h
    · exact absurd (related_of_takeHead hready hhead) hrelated
    obtain ⟨type, hq, hwords⟩ := exists_words_of_takeHead hready hhead
    have hlt₁ := Nat.lt_of_lt_of_le (size_takeHead_lt hhead) hle
    obtain hbody | ⟨child, s₂, hbody, h⟩ := Reading.bind_eq_error h
    · have hends := hscope.endsInHead hnodes head.name hwords
      have hpoints := pointsBack_of_takeBody hready hends hbody hrelated
      rwa [List.append_assoc, List.cons_append, ← hq] at hpoints
    · have hlt₂ := Nat.lt_trans (size_takeBody_lt hbody) hlt₁
      obtain ⟨body, hs₁, hends⟩ := endsNode_of_takeBody hready hbody
      have hname := eq_name_of_takeHead hpeek hhead
      cases hname
      rw [childProblem_word_eq_none_iff] at hproblem
      have hnode : Nodes _ [head.name] := .cons head.name hwords hends .nil
      have hpoints := pointsBack_of_takeChildren hready (hscope.append _) (hnodes.append hnode)
        (hnoted.concat hproblem) h hrelated
      have hsequence : q.sequence = ⟨.word head.name.value, head.name.span⟩ ::
          (type ++ body ++ []) ++ s₂.sequence := by
        rw [hq, hs₁]
        simp
      rwa [List.append_assoc, ← hsequence] at hpoints
termination_by s.size
decreasing_by
  · exact hlt₁
  · exact hlt₂

end

/-! ## Whole files -/

/-- A failure in a root points back, if at all, at a token of an open scope. -/
theorem pointsBack_of_takeRoot (hready : registry.ReadyMade) {s s' : TokenStream} {d : Diagnostic}
    (h : takeRoot registry settings s = (.error d, s')) (hrelated : d.problem.related ≠ []) :
    d.PointsBack s.sequence := by
  rw [takeRoot_eq] at h
  obtain hname | ⟨name, q, hname, h⟩ := Reading.bind_eq_error h
  · exact absurd (related_of_takeName (fun _ => rfl) hname) hrelated
  obtain hpeek | ⟨token, q', hpeek, h⟩ := Reading.bind_eq_error h
  · exact absurd (Diagnostic.related_of_lexical (TokenStream.kind_of_peek hpeek)) hrelated
  split at h
  · obtain ⟨rfl, -⟩ := Reading.fail_eq_error h
    exact absurd rfl hrelated
  · have hends : EndsInHead [⟨.word name.value, name.span⟩] name := ⟨[], [], rfl, nofun, nofun⟩
    rw [TokenStream.sequence_of_next (next_of_takeName hname) (by simp),
      TokenStream.sequence_of_peek hpeek]
    exact pointsBack_of_takeBody hready hends h hrelated

/-- A failure in a command file points back, if at all, at a token of an open scope. -/
theorem pointsBack_of_takeWhole (hready : registry.ReadyMade) {s s' : TokenStream}
    {d : Diagnostic} (h : takeWhole registry settings s = (.error d, s'))
    (hrelated : d.problem.related ≠ []) : d.PointsBack s.sequence := by
  rw [takeWhole_eq] at h
  obtain hroot | ⟨root, q, -, h⟩ := Reading.bind_eq_error h
  · exact pointsBack_of_takeRoot hready hroot hrelated
  obtain hnext | ⟨token, q', -, h⟩ := Reading.bind_eq_error h
  · exact absurd (Diagnostic.related_of_lexical (TokenStream.kind_of_next hnext)) hrelated
  split at h
  · exact absurd h Reading.pure_ne_error
  · obtain ⟨rfl, -⟩ := Reading.fail_eq_error h
    exact absurd rfl hrelated

/-- The diagnostic of a source that is refused points back, if at all, at a token of an open scope
in that source. -/
theorem pointsBack_of_parse (hready : registry.ReadyMade) {source : Source} {d : Diagnostic}
    (h : parse registry settings source = .error d) (hrelated : d.problem.related ≠ []) :
    ∃ (d' : Diagnostic) (text : String), d = d'.withSource settings.sourceName text ∧
      d'.PointsBack (TokenStream.ofSource source).sequence := by
  rw [parse_eq] at h
  rcases htake : takeWhole registry settings (.ofSource source) with ⟨d' | t, s'⟩
  · rw [htake] at h
    obtain rfl := Except.error.inj h
    exact ⟨d', s'.loadedText, rfl, pointsBack_of_takeWhole hready htake hrelated⟩
  · rw [htake] at h
    contradiction

/-- A scope that is reported as open at the end of input was opened by the last brace that nothing
closes. The node in front of that brace is the one that is named, and the message gives the line of
the brace.

A child that is reported as a duplicate stands in the innermost open scope, behind complete nodes
whose names all differ. The place that is given is that of the only one among them with the same
name. -/
theorem related_places_of_parse (hready : registry.ReadyMade) {source : Source} {d : Diagnostic}
    (h : parse registry settings source = .error d) :
    let read := (TokenStream.ofSource source).sequence
    (∀ name opening, d.problem = .unclosedScope name opening →
      ∃ (tokens inner : List (Located Token)) (place stop : Span),
        read = tokens ++ [⟨.endOfInput, stop⟩] ∧
        OpensScope tokens ⟨name, place⟩ opening inner ∧
        Token.LeavesOpen (inner.map Located.value) ∧
        d.span = some stop ∧ d.related = [⟨opening, "scope opened here"⟩] ∧
        d.message = "expected '\x7d' to close the scope of '" ++ name ++ "' opened at line " ++
          toString opening.line ++ ", found end of input") ∧
    ∀ duplicate first, d.problem = .duplicateChild duplicate first →
      ∃ (before inner rest : List (Located Token)) (child place opening : Span)
        (names : List (Located String)),
        read = before ++ ⟨.word duplicate.name, child⟩ :: rest ∧
        OpensScope before ⟨duplicate.parent, place⟩ opening inner ∧
        Token.LeavesOpen (inner.map Located.value) ∧
        Nodes inner names ∧ (names.map Located.value).Nodup ∧
        names.filter (·.value = duplicate.name) = [⟨duplicate.name, first⟩] ∧
        d.span = some child ∧ d.related = [⟨first, "first defined here"⟩] := by
  intro read
  constructor
  · intro name opening hproblem
    have hrelated : d.problem.related ≠ [] := by simp [hproblem, Problem.related]
    obtain ⟨d', text, rfl, hpoints⟩ := pointsBack_of_parse hready h hrelated
    cases hpoints with
    | duplicate => contradiction
    | @unclosed tokens inner owner _ _ stop hread hscope hnodes =>
      cases hproblem
      exact ⟨tokens, inner, owner.span, stop, hread, hscope, hnodes.balanced.leavesOpen, rfl, rfl,
        rfl⟩
  · intro duplicate first hproblem
    have hrelated : d.problem.related ≠ [] := by simp [hproblem, Problem.related]
    obtain ⟨d', text, rfl, hpoints⟩ := pointsBack_of_parse hready h hrelated
    cases hpoints with
    | unclosed => contradiction
    | @duplicate before inner rest owner opening names child _ hread hscope hnodes hnodup hfilter =>
      cases hproblem
      exact ⟨before, inner, rest, child.span, owner.span, opening, names, hread, hscope,
        hnodes.balanced.leavesOpen, hnodes, hnodup, hfilter, rfl, rfl⟩

/-- A scope is left open behind closed ones and behind a word that looks like a brace. A name is
repeated that was also used in the scope around and in one further in. -/
theorem related_places_of_nested_scopes :
    let unclosed := "r \x7b\n  \"\x7b\";\n  a \x7b b; \x7d\n  c bool \x7b\n    d;\n"
    let repeated := "r \x7b\n  x;\n  b \x7b\n    y \x7b x; \x7d \"\x7d\"; x;\n    x bool;\n"
    (∃ (d : Diagnostic) (tokens inner : List (Located Token)) (place : Span),
      parse ⟨[.brigadier]⟩ .standard (.ofString unclosed) = .error d ∧
      OpensScope tokens ⟨"c", place⟩ ⟨31, 32, 4⟩ inner ∧
      Token.LeavesOpen (inner.map Located.value) ∧
      d.related = [⟨⟨31, 32, 4⟩, "scope opened here"⟩]) ∧
    ∃ (d : Diagnostic) (before inner : List (Located Token)) (place opening : Span)
      (names : List (Located String)),
      parse ⟨[.brigadier]⟩ .standard (.ofString repeated) = .error d ∧
      OpensScope before ⟨"b", place⟩ opening inner ∧ Nodes inner names ∧
      names.filter (·.value = "x") = [⟨"x", ⟨33, 34, 4⟩⟩] ∧ d.span = some ⟨40, 41, 5⟩ := by
  intro unclosed repeated
  have hready : Registry.ReadyMade ⟨[.brigadier]⟩ := by
    simp [Registry.ReadyMade, Resolver.isReadyMade]
  constructor
  · have hrefused : (refusal? ⟨[.brigadier]⟩ .standard (.ofString unclosed)).map
        Diagnostic.problem = some (.unclosedScope "c" ⟨31, 32, 4⟩) := by
      decide +kernel
    obtain ⟨d, hparse, hproblem⟩ := exists_of_refusal? hrefused
    obtain ⟨hscope, -⟩ := related_places_of_parse hready hparse
    obtain ⟨tokens, inner, place, -, -, hopens, hleaves, -, hrelated, -⟩ := hscope _ _ hproblem
    exact ⟨d, tokens, inner, place, hparse, hopens, hleaves, hrelated⟩
  · have hrefused : (refusal? ⟨[.brigadier]⟩ .standard (.ofString repeated)).map
        (fun d => (d.problem, d.span)) =
          some (.duplicateChild ⟨"b", "x"⟩ ⟨33, 34, 4⟩, some ⟨40, 41, 5⟩) := by
      decide +kernel
    obtain ⟨d, hparse, hd⟩ := exists_of_refusal? hrefused
    obtain ⟨hproblem, hspan⟩ := Prod.mk.inj hd
    obtain ⟨-, hchild⟩ := related_places_of_parse hready hparse
    obtain ⟨before, inner, -, -, place, opening, names, -, hopens, -, hnodes, -, hfilter, -⟩ :=
      hchild _ _ hproblem
    exact ⟨d, before, inner, place, opening, names, hparse, hopens, hnodes, hfilter, hspan⟩

end Tree

end CommandTree
