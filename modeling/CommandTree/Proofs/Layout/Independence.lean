import CommandTree.Proofs.Layout.Types
import CommandTree.Proofs.Parsing.Recursion

/-!
# Parsing does not depend on the layout

The parser keeps the places of the names that it read and of the brace that opened the scope it is
in. In two layouts of the same tokens the places that it keeps face each other, and it compares
names only. So it takes the same course in both, to the same tree or to diagnostics that say the
same.
-/

set_option autoImplicit false

namespace CommandTree.Tree

open TokenStream (Abreast)

variable {registry : Registry} {settings : Settings} {us vs : List (Located Token)}

/-! ## Heads -/

section

variable {s s' : TokenStream}

/-- Taking a name from streams that are abreast has the same outcome. -/
theorem sameOutcome_takeName {problem : Token → Problem}
    (hrelated : ∀ token, (problem token).related = []) (h : s.Abreast us vs s') :
    SameOutcome us vs (Located.Faces us vs) (takeName problem s) (takeName problem s') := by
  rw [takeName_eq]
  refine SameOutcome.next h fun value a b q q' _ hspan hq => ?_
  cases value with
  | word text => exact .ok ⟨rfl, hspan⟩ (hq nofun)
  | _ => exact .fail (.same (hrelated _)) hspan

/-- Taking a type from streams that are abreast has the same outcome. -/
theorem sameOutcome_takeType (hready : registry.ReadyMade) (h : s.Abreast us vs s') :
    SameOutcome us vs Eq (takeType registry settings s) (takeType registry settings s') := by
  rw [takeType_eq]
  apply SameOutcome.nextWord? h
  · intro q q' hq
    exact .ok rfl hq
  · intro text a b q q' _ hspan hq
    refine (registry.sameOutcome_resolve hready settings.defaultSpace text hspan hq).bind ?_
    rintro type _ p p' _ rfl hp
    exact .ok rfl hp

/-- The same head, whose name has places that face each other. -/
structure Head.Faces (us vs : List (Located Token)) (head head' : Head) : Prop where
  name : head.name.Faces us vs head'.name
  type_eq : head.type = head'.type

/-- Taking a head from streams that are abreast has the same outcome. -/
theorem sameOutcome_takeHead (hready : registry.ReadyMade) (h : s.Abreast us vs s') :
    SameOutcome us vs (Head.Faces us vs) (takeHead registry settings s)
      (takeHead registry settings s') := by
  rw [takeHead_eq]
  refine (sameOutcome_takeName (fun _ => rfl) h).bind fun name name' q q' _ hname hq => ?_
  refine (sameOutcome_takeType hready hq).bind fun type type' p p' _ htype hp => ?_
  exact .ok ⟨hname, htype⟩ hp

end

/-! ## Names that were seen -/

/-- The same names were seen, at places that face each other. -/
def Seen.Faces (us vs : List (Located Token)) (seen seen' : Seen) : Prop :=
  List.Forall₂ (fun x y => x.1 = y.1 ∧ x.2.Faces us vs y.2) seen seen'

variable {seen seen' : Seen} {a b : Span}

/-- A name was seen in both places or in neither. -/
theorem Seen.Faces.lookup (h : seen.Faces us vs seen') (name : String) :
    Option.Rel (Span.Faces us vs) (seen.lookup name) (seen'.lookup name) := by
  induction h with
  | nil => exact .none
  | @cons x y seen seen' hfirst _ ih =>
    obtain ⟨text, a⟩ := x
    obtain ⟨_, b⟩ := y
    obtain ⟨rfl, hspan⟩ := hfirst
    rw [List.lookup_cons, List.lookup_cons]
    cases name == text with
    | true => exact .some hspan
    | false => exact ih

/-- Noting children that face each other keeps what was seen so. -/
theorem Seen.Faces.note (h : seen.Faces us vs seen') (token : Token) (hspan : a.Faces us vs b) :
    Seen.Faces us vs (noteChild seen ⟨token, a⟩) (noteChild seen' ⟨token, b⟩) := by
  cases token with
  | word text => exact .cons ⟨rfl, hspan⟩ h
  | _ => exact h

/-- The next token of a scope is a problem in both layouts or in none. -/
theorem childProblem_faces (parent : String) (token : Token) (hopening : a.Faces us vs b)
    (h : seen.Faces us vs seen') :
    Option.Rel (Problem.Faces us vs) (childProblem parent a seen token)
      (childProblem parent b seen' token) := by
  cases token with
  | endOfInput => exact .some (.unclosedScope hopening)
  | word name =>
    have hlookup := h.lookup name
    dsimp only [childProblem]
    generalize seen.lookup name = first, seen'.lookup name = first' at hlookup
    cases hlookup with
    | none => exact .none
    | some hfirst => exact .some (.duplicateChild hfirst)
  | _ => exact .none

/-! ## Bodies and scopes -/

mutual

/-- Taking a body from streams that are abreast has the same outcome. -/
theorem sameOutcome_takeBody (hready : registry.ReadyMade) (level : Nat) {head head' : Head}
    {s s' : TokenStream} (hhead : head.Faces us vs head') (h : s.Abreast us vs s') :
    SameOutcome us vs Eq (takeBody registry settings level head s)
      (takeBody registry settings level head' s') := by
  obtain ⟨⟨name, a⟩, type⟩ := head
  obtain ⟨⟨_, b⟩, _⟩ := head'
  obtain ⟨⟨rfl, hspan⟩, rfl⟩ := hhead
  cases hlevel : settings.maxDepth.filter (· < level) with
  | some limit =>
    rw [takeBody_of_limit _ hlevel, takeBody_of_limit _ hlevel]
    exact .fail (.same rfl) hspan
  | none =>
    rw [takeBody_eq _ hlevel, takeBody_eq _ hlevel]
    refine SameOutcome.next h fun value a b q q' hnext hopening hq => ?_
    cases value with
    | terminator => exact .ok rfl (hq nofun)
    | openScope =>
      have hlt := TokenStream.size_next_lt hnext (by simp)
      refine (sameOutcome_takeChildren hready level name [] hopening .nil (hq nofun)).bind ?_
      rintro children _ p p' _ rfl hp
      exact .ok rfl hp
    | _ => exact .fail (.same rfl) hopening
termination_by s.size
decreasing_by exact hlt

/-- Taking the children of a scope from streams that are abreast has the same outcome. -/
theorem sameOutcome_takeChildren (hready : registry.ReadyMade) (level : Nat) (parent : String)
    (read : List Tree) {opening opening' : Span} {seen seen' : Seen} {s s' : TokenStream}
    (hopening : opening.Faces us vs opening') (hseen : seen.Faces us vs seen')
    (h : s.Abreast us vs s') :
    SameOutcome us vs Eq (takeChildren registry settings level parent opening seen read s)
      (takeChildren registry settings level parent opening' seen' read s') := by
  rw [takeChildren_eq, takeChildren_eq]
  refine SameOutcome.peek h fun value a b q q' hpeek hspan hq => ?_
  have hle := TokenStream.size_le_of_reaches (TokenStream.Reaches.peek_of_eq hpeek)
  by_cases hclose : value = .closeScope
  · rw [if_pos hclose, if_pos hclose]
    refine SameOutcome.next hq fun value' a' b' p p' hnext _ hp => ?_
    have hsame := TokenStream.next_of_peeked (TokenStream.peeked_of_peek hpeek)
    cases hsame.symm.trans hnext
    exact .ok rfl (hp (by simp [hclose]))
  rw [if_neg hclose, if_neg hclose]
  have hproblem := childProblem_faces parent value hopening hseen
  dsimp only
  generalize childProblem parent opening seen value = x,
    childProblem parent opening' seen' value = x' at hproblem
  cases hproblem with
  | some hproblem => exact .fail hproblem hspan
  | none =>
    refine (sameOutcome_takeHead hready hq).bind fun head head' p p' hhead hfaces hp => ?_
    have hlt₁ := Nat.lt_of_lt_of_le (size_takeHead_lt hhead) hle
    refine (sameOutcome_takeBody hready (level + 1) hfaces hp).bind ?_
    rintro child _ r r' hbody rfl hr
    have hlt₂ := Nat.lt_trans (size_takeBody_lt hbody) hlt₁
    exact sameOutcome_takeChildren hready level parent (child :: read) hopening
      (hseen.note value hspan) hr
termination_by s.size
decreasing_by
  · exact hlt₁
  · exact hlt₂

end

/-! ## Whole files -/

/-- Taking a root from streams that are abreast has the same outcome. -/
theorem sameOutcome_takeRoot (hready : registry.ReadyMade) (settings : Settings)
    {s s' : TokenStream}
    (h : s.Abreast us vs s') :
    SameOutcome us vs Eq (takeRoot registry settings s) (takeRoot registry settings s') := by
  rw [takeRoot_eq]
  refine (sameOutcome_takeName (fun _ => rfl) h).bind fun name name' q q' _ hname hq => ?_
  refine SameOutcome.peek hq fun value a b p p' _ _ hp => ?_
  dsimp only
  split
  · rw [← hname.value_eq]
    exact .fail (.same rfl) hname.span
  · exact sameOutcome_takeBody hready 1 ⟨hname, rfl⟩ hp

/-- In two layouts a whole file is read as the same tree, or the diagnostics face each other. -/
theorem takeWhole_abreast (hready : registry.ReadyMade) (settings : Settings)
    {s s' : TokenStream}
    (h : s.Abreast us vs s') :
    (∃ t q q', takeWhole registry settings s = (.ok t, q) ∧
      takeWhole registry settings s' = (.ok t, q')) ∨
    ∃ d d' q q', takeWhole registry settings s = (.error d, q) ∧
      takeWhole registry settings s' = (.error d', q') ∧ d.Faces us vs d' := by
  have hroot := sameOutcome_takeRoot hready settings h
  generalize hx : takeRoot registry settings s = x at hroot
  generalize hx' : takeRoot registry settings s' = x' at hroot
  rw [takeWhole_eq]
  cases hroot with
  | error hd =>
    right
    exact ⟨_, _, _, _, Reading.bind_of_error hx _, Reading.bind_of_error hx' _, hd⟩
  | ok hsame hq =>
    obtain rfl := hsame
    -- behind the end of input the streams need not be abreast
    obtain ⟨⟨value, a⟩, ⟨_, b⟩, p, p', hnext, hnext', ⟨rfl, hspan⟩, -⟩ := hq.exists_next
    rw [Reading.bind_of_ok hx, Reading.bind_of_ok hx', Reading.bind_apply, Reading.bind_apply,
      Reading.next, hnext, hnext']
    dsimp only
    by_cases hend : value = .endOfInput
    · left
      rw [if_pos hend, if_pos hend]
      exact ⟨_, _, _, rfl, rfl⟩
    · right
      rw [if_neg hend, if_neg hend]
      have hproblem : Problem.Faces us vs (.trailingInput value) (.trailingInput value) := .same rfl
      exact ⟨_, _, _, _, rfl, rfl, hproblem.diagnostic hspan⟩

/-- The layout of a command file does not matter. Two sources with the same tokens are both parsed
as the same tree, or both are refused with diagnostics that say the same of tokens of the same
number. -/
theorem parse_of_same_tokens (hready : registry.ReadyMade) (settings : Settings)
    {source other : Source} {ts : List Token} (h : (TokenStream.ofSource source).Lexes ts)
    (h' : (TokenStream.ofSource other).Lexes ts) :
    (∃ t, parse registry settings source = .ok t ∧ parse registry settings other = .ok t) ∨
    ∃ d d', parse registry settings source = .error d ∧
      parse registry settings other = .error d' ∧
      d.Faces (TokenStream.ofSource source).sequence (TokenStream.ofSource other).sequence d' := by
  rw [parse_eq, parse_eq]
  obtain ⟨t, q, q', hx, hx'⟩ | ⟨d, d', q, q', hx, hx', hd⟩ :=
    takeWhole_abreast hready settings (TokenStream.abreast_ofSource h h')
  · left
    exact ⟨t, by rw [hx], by rw [hx']⟩
  · right
    rw [hx, hx']
    exact ⟨_, _, rfl, rfl, hd.withSource _ _ _⟩

/-- A text of one line and another with the same tokens, which has a comment, quotes and an escape.
The scope of the root is closed in neither, and it is opened on different lines. -/
theorem parse_of_two_layouts :
    let registry : Registry := ⟨[.minecraft]⟩
    let source := Source.ofString "r \x7b a bool;"
    let other := Source.ofString "// note\n\"\\162\" \x7b\n  a \"bool\";\n"
    let tokens := [Token.word "r", .openScope, .word "a", .word "bool", .terminator]
    registry.ReadyMade ∧ (TokenStream.ofSource source).Lexes tokens ∧
    (TokenStream.ofSource other).Lexes tokens ∧
    ∃ d d', parse registry .standard source = .error d ∧
      parse registry .standard other = .error d' ∧
      d.Faces (TokenStream.ofSource source).sequence (TokenStream.ofSource other).sequence d' ∧
      d.message = Problem.unclosedMessage "r" 1 ∧ d'.message = Problem.unclosedMessage "r" 2 := by
  intro registry source other tokens
  have hready : registry.ReadyMade := by simp [registry, Registry.ReadyMade, Resolver.isReadyMade]
  have hsource : (TokenStream.ofSource source).Lexes tokens :=
    .of_isOk (by decide +kernel) (by decide +kernel)
  have hother : (TokenStream.ofSource other).Lexes tokens :=
    .of_isOk (by decide +kernel) (by decide +kernel)
  have hrefused : (refusal? registry .standard source).map Diagnostic.message =
      some (Problem.unclosedMessage "r" 1) := by
    decide +kernel
  have hrefused' : (refusal? registry .standard other).map Diagnostic.message =
      some (Problem.unclosedMessage "r" 2) := by
    decide +kernel
  obtain ⟨d, hparse, hmessage⟩ := exists_of_refusal? hrefused
  obtain ⟨d', hparse', hmessage'⟩ := exists_of_refusal? hrefused'
  refine ⟨hready, hsource, hother, d, d', hparse, hparse', ?_, hmessage, hmessage'⟩
  obtain ⟨t, htree, -⟩ | ⟨e, e', herror, herror', hfaces⟩ :=
    parse_of_same_tokens hready .standard hsource hother
  · rw [hparse] at htree
    contradiction
  · obtain rfl : d = e := Except.error.inj (hparse.symm.trans herror)
    obtain rfl : d' = e' := Except.error.inj (hparse'.symm.trans herror')
    exact hfaces

end CommandTree.Tree
