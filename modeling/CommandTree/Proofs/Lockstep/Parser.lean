import CommandTree.Proofs.Lockstep.Types
import CommandTree.Proofs.Parsing.TreeShape

/-!
# The parser in step

The parser keeps the places of the names that it read and of the brace that opened the scope it is
in. All of them are stretches of the text that was taken, so a diagnostic that is at such a place,
or points back at one, points into the loaded text. With that, two parsers that start in step give
the same tree or the same diagnostic, or the first one fails where its source breaks.
-/

set_option autoImplicit false

namespace CommandTree.Tree

open TokenStream (InStep SameRun)

variable {registry : Registry} {settings : Settings} {source : Source}

/-! ## Heads -/

section

variable {before : List Char} {s s' : TokenStream}

/-- Taking a name gives the same in step, with a place in the text that was taken. -/
theorem sameRun_takeName {problem : Token → Problem}
    (hrelated : ∀ token, (problem token).related = []) (h : s.InStep source before s') :
    SameRun source before (fun after name => name.span.IsIn after) (takeName problem s)
      (takeName problem s') := by
  rw [takeName_eq]
  refine (TokenStream.sameRun_next h).bind fun token after q q' _ _ hq htoken => ?_
  obtain ⟨value, span⟩ := token
  cases value with
  | word text => exact .ok hq (htoken.isIn (by simp))
  | _ => exact .fail_next hq htoken (hrelated _)

/-- Taking a type gives the same in step. -/
theorem sameRun_takeType (hready : registry.ReadyMade) (h : s.InStep source before s') :
    SameRun source before (fun _ _ => True) (takeType registry settings s)
      (takeType registry settings s') := by
  rw [takeType_eq]
  refine (TokenStream.sameRun_nextWord? h).bind fun word after q q' _ _ hq hword => ?_
  cases word with
  | none => exact .ok hq trivial
  | some word =>
    refine (registry.sameRun_resolve hready settings.defaultSpace hq (hword _ rfl)).bind ?_
    exact fun _ _ _ _ _ _ hq _ => .ok hq trivial

/-- Taking a head gives the same in step, with a name in the text that was taken. -/
theorem sameRun_takeHead (hready : registry.ReadyMade) (h : s.InStep source before s') :
    SameRun source before (fun after head => head.name.span.IsIn after)
      (takeHead registry settings s) (takeHead registry settings s') := by
  rw [takeHead_eq]
  refine (sameRun_takeName (fun _ => rfl) h).bind fun name after q q' _ _ hq hname => ?_
  refine (sameRun_takeType hready hq).bind fun type after q q' _ hle hq _ => ?_
  exact .ok hq (hname.mono hle)

end

/-! ## Bodies and scopes -/

/-- The places of all names that were seen are stretches of the text. -/
def Seen.AreIn (seen : Seen) (text : List Char) : Prop :=
  ∀ (name : String) (span : Span), seen.lookup name = some span → span.IsIn text

/-- Before the first child no place was noted. -/
theorem Seen.AreIn.nil (text : List Char) : Seen.AreIn [] text := by
  intro name span h
  contradiction

/-- Noted places stay in the text when more of it is taken. -/
theorem Seen.AreIn.mono {seen : Seen} {text text' : List Char} (h : seen.AreIn text)
    (hle : text <+: text') : seen.AreIn text' :=
  fun name span hspan => (h name span hspan).mono hle

/-- Noting a child in the text keeps all noted places in it. -/
theorem Seen.AreIn.note {seen : Seen} {text : List Char} {token : Located Token}
    (h : seen.AreIn text) (htoken : ∀ name, token.value = .word name → token.span.IsIn text) :
    Seen.AreIn (noteChild seen token) text := by
  obtain ⟨value, span⟩ := token
  cases value with
  | word name =>
    intro name' span' hlookup
    rw [noteChild, List.lookup_cons] at hlookup
    cases hname : name' == name with
    | true =>
      rw [hname] at hlookup
      obtain rfl : span = span' := Option.some.inj hlookup
      exact htoken name rfl
    | false =>
      rw [hname] at hlookup
      exact h name' span' hlookup
  | _ => exact h

/-- A problem with the next token of a scope points back at places that were kept. -/
theorem related_of_childProblem {parent : String} {opening : Span} {seen : Seen} {token : Token}
    {problem : Problem} {text : List Char}
    (h : childProblem parent opening seen token = some problem)
    (hopening : opening.IsIn text) (hseen : seen.AreIn text) :
    ∀ label ∈ problem.related, label.span.IsIn text := by
  cases token with
  | endOfInput =>
    obtain rfl := Option.some.inj h
    intro label hlabel
    obtain rfl := List.mem_singleton.mp hlabel
    exact hopening
  | word name =>
    obtain ⟨first, hfirst, rfl⟩ := Option.map_eq_some_iff.mp h
    intro label hlabel
    obtain rfl := List.mem_singleton.mp hlabel
    exact hseen name first hfirst
  | _ => contradiction

mutual

/-- Taking a body gives the same in step. -/
theorem sameRun_takeBody (hready : registry.ReadyMade) (level : Nat) {head : Head}
    {before : List Char} {s s' : TokenStream} (hhead : head.name.span.IsIn before)
    (h : s.InStep source before s') :
    SameRun source before (fun _ _ => True) (takeBody registry settings level head s)
      (takeBody registry settings level head s') := by
  cases hlevel : settings.maxDepth.filter (· < level) with
  | some limit =>
    rw [takeBody_of_limit head hlevel]
    exact .fail_at h hhead rfl
  | none =>
    rw [takeBody_eq head hlevel]
    refine (TokenStream.sameRun_next h).bind fun token after q q' hnext _ hq htoken => ?_
    obtain ⟨value, span⟩ := token
    cases value with
    | terminator => exact .ok hq trivial
    | openScope =>
      have hlt := TokenStream.size_next_lt hnext (by simp)
      have hopening : span.IsIn after := htoken.isIn (by simp)
      refine (sameRun_takeChildren hready level head.name.value [] hopening (.nil after) hq).bind ?_
      exact fun _ _ _ _ _ _ hq _ => .ok hq trivial
    | _ => exact .fail_next hq htoken rfl
termination_by s.size
decreasing_by exact hlt

/-- Taking the children of a scope gives the same in step. -/
theorem sameRun_takeChildren (hready : registry.ReadyMade) (level : Nat) (parent : String)
    {opening : Span} {seen : Seen} (read : List Tree) {before : List Char} {s s' : TokenStream}
    (hopening : opening.IsIn before) (hseen : seen.AreIn before) (h : s.InStep source before s') :
    SameRun source before (fun _ _ => True)
      (takeChildren registry settings level parent opening seen read s)
      (takeChildren registry settings level parent opening seen read s') := by
  rw [takeChildren_eq]
  refine (TokenStream.sameRun_peek h).bind fun token after q q' hpeek _ hq hafter => ?_
  subst hafter
  have hpeeked := TokenStream.peeked_of_peek hpeek
  have hle := TokenStream.size_le_of_reaches (TokenStream.Reaches.peek_of_eq hpeek)
  split
  · exact (TokenStream.sameRun_next hq).bind fun _ _ _ _ _ _ hq _ => .ok hq trivial
  · cases hproblem : childProblem parent opening seen token.value with
    | some problem =>
      exact .fail_peeked hq hpeeked (related_of_childProblem hproblem hopening hseen)
    | none =>
      refine (sameRun_takeHead hready hq).bind fun head after₁ q₁ q₁' hhead hle₁ hq₁ hname => ?_
      have hlt₁ := Nat.lt_of_lt_of_le (size_takeHead_lt hhead) hle
      refine (sameRun_takeBody hready (level + 1) hname hq₁).bind
        fun child after₂ q₂ q₂' hbody hle₂ hq₂ _ => ?_
      have hlt₂ := Nat.lt_trans (size_takeBody_lt hbody) hlt₁
      have hbehind := hle₁.trans hle₂
      -- the token that was looked at is the name that was taken
      have hspan : token.span.IsIn after₂ := by
        rw [eq_name_of_takeHead hpeek hhead]
        exact hname.mono hle₂
      exact sameRun_takeChildren hready level parent (child :: read) (hopening.mono hbehind)
        ((hseen.mono hbehind).note fun _ _ => hspan) hq₂
termination_by s.size
decreasing_by
  · exact hlt₁
  · exact hlt₂

end

/-! ## Whole files -/

section

variable {before : List Char} {s s' : TokenStream}

/-- Taking a root gives the same in step. -/
theorem sameRun_takeRoot (hready : registry.ReadyMade) (h : s.InStep source before s') :
    SameRun source before (fun _ _ => True) (takeRoot registry settings s)
      (takeRoot registry settings s') := by
  rw [takeRoot_eq]
  refine (sameRun_takeName (fun _ => rfl) h).bind fun name after q q' _ _ hq hname => ?_
  refine (TokenStream.sameRun_peek hq).bind fun token after q q' _ hle hq _ => ?_
  split
  · exact .fail_at hq (hname.mono hle) rfl
  · exact sameRun_takeBody hready 1 (hname.mono hle) hq

/-- Taking a tree and the end of input gives the same in step. -/
theorem sameRun_takeWhole (hready : registry.ReadyMade) (h : s.InStep source before s') :
    SameRun source before (fun _ _ => True) (takeWhole registry settings s)
      (takeWhole registry settings s') := by
  rw [takeWhole_eq]
  refine (sameRun_takeRoot hready h).bind fun root after q q' _ _ hq _ => ?_
  refine (TokenStream.sameRun_next hq).bind fun token after q q' _ _ hq htoken => ?_
  split
  · exact .ok hq trivial
  · exact .fail_next hq htoken rfl

end

/-- What parsing a source comes to, and what that says about every source that agrees with it. A
tree is returned only if the source was read to its end. A diagnostic carries the lines that were
loaded and points into them; it is the same for the other source, unless it says that the first one
breaks. -/
theorem parse_of_agrees (hready : registry.ReadyMade) (settings : Settings) {source other : Source}
    (h : source.Agrees other) :
    (∃ t text, parse registry settings source = .ok t ∧ source.Loads text ⟨[], .endOfInput⟩) ∨
    (∃ (d : Diagnostic) (text : List Char), parse registry settings source =
        .error (d.withSource settings.sourceName (String.ofList text)) ∧
      parse registry settings other = parse registry settings source ∧
      d.PointsInto text ∧ ∃ ahead, source.Loads text ahead) ∨
    ∃ e text, parse registry settings source =
        .error ((Diagnostic.atSpan (.unreadable e) (Lexis.spanAt text [])).withSource
          settings.sourceName (String.ofList text)) ∧
      source.Breaks text e := by
  rw [parse_eq, parse_eq]
  have hrun : SameRun source [] (fun _ _ => True)
      (takeWhole registry settings (.ofSource source))
      (takeWhole registry settings (.ofSource other)) :=
    sameRun_takeWhole hready (TokenStream.inStep_ofSource h)
  obtain ⟨t, after, q, q', hx, -, -, hq, -⟩ | ⟨d, q, q', hx, hx', hsame, hloads, hd⟩ |
    ⟨e, q, hx, hbreaks⟩ := hrun
  · obtain ⟨-, -, -, hend⟩ := shape_of_takeWhole (TokenStream.settled_ofSource source) hx
    obtain ⟨-, _, hreader, -⟩ := hq
    refine .inl ⟨t, q.reader.loadedText, by rw [hx], ?_⟩
    rw [← hend.reader_atEnd.ahead_eq]
    exact hreader.loads
  · refine .inr (.inl ⟨d, q.reader.loadedText, by rw [hx]; rfl, ?_, hd, hloads⟩)
    rw [hx, hx']
    simp only [TokenStream.loadedText, hsame]
  · exact .inr (.inr ⟨e, q.reader.loadedText, by rw [hx]; rfl, hbreaks⟩)

end CommandTree.Tree
