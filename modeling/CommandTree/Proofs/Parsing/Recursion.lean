import CommandTree.Proofs.Stream.Accepting
import CommandTree.Tree.Parser

/-!
# The parser as readings

The functions of the parser carry a bound on what is left of the stream, which is why they end. What
they do to a stream does not depend on the bound. Without it each of them is a `Reading`, and the
equations below say how these readings are put together from the basic ones. A statement about what
the parser does then follows the equations, one sequenced step at a time.

The equations are no definitions, because the reading of a scope calls itself. A proof by induction
gets the smaller streams from `size_takeHead_lt` and `size_takeBody_lt`.
-/

set_option autoImplicit false

namespace CommandTree

namespace Tree

/-- What a step of the parser comes to, without the bound on what is left. -/
def outcome {α : Type} {bound : Nat} :
    Except Stopped (α × Left bound) → Except Diagnostic α × TokenStream
  | .ok (a, s) => (.ok a, s.val)
  | .error stopped => (.error stopped.diagnostic, stopped.stream)

/-- Takes a name. -/
def takeName (problem : Token → Problem) : Reading Diagnostic (Located String) := fun s =>
  outcome (readName problem s)

/-- Takes a type if a word is next. -/
def takeType (registry : Registry) (settings : Settings) : Reading Diagnostic (Option ArgType) :=
  fun s => outcome (readType registry settings (⟨s, s.size.lt_succ_self⟩ : Left (s.size + 1)))

/-- Takes the head of a node below the root. -/
def takeHead (registry : Registry) (settings : Settings) : Reading Diagnostic Head := fun s =>
  outcome (readHead registry settings s)

/-- Takes what follows the head of a node on a level. -/
def takeBody (registry : Registry) (settings : Settings) (level : Nat) (head : Head) :
    Reading Diagnostic Tree := fun s =>
  outcome (readBody registry settings level head s)

/-- Takes the children of a scope through its closing brace. -/
def takeChildren (registry : Registry) (settings : Settings) (level : Nat) (parent : String)
    (opening : Span) (seen : Seen) (read : List Tree) : Reading Diagnostic (List Tree) := fun s =>
  outcome (readChildren registry settings level parent opening seen read
    (⟨s, s.size.lt_succ_self⟩ : Left (s.size + 1)))

/-- Takes the root of a tree. -/
def takeRoot (registry : Registry) (settings : Settings) : Reading Diagnostic Tree := fun s =>
  match readRoot registry settings s with
  | .ok (t, s') => (.ok t, s')
  | .error stopped => (.error stopped.diagnostic, stopped.stream)

/-- Takes a tree and the end of input. -/
def takeWhole (registry : Registry) (settings : Settings) : Reading Diagnostic Tree := fun s =>
  match readWhole registry settings s with
  | .ok (t, s') => (.ok t, s')
  | .error stopped => (.error stopped.diagnostic, stopped.stream)

/-! ## Names, types and heads -/

/-- Taking a name is to take a word and to fail at anything else. -/
theorem takeName_eq (problem : Token → Problem) :
    takeName problem = (do
      let token ← Reading.next
      match token.value with
      | .word text => pure ⟨text, token.span⟩
      | other => Reading.fail (.atSpan (problem other) token.span)) := by
  funext s
  rw [Reading.bind_apply]
  unfold takeName readName Reading.next
  split
  · rename_i hnext
    simp only [hnext]
    rfl
  · rename_i hnext
    simp only [hnext]
    rfl
  · rename_i token s' hword hnext
    obtain ⟨value, span⟩ := token
    simp only [hnext]
    cases value with
    | word text => exact absurd rfl (hword text span)
    | _ => rfl

/-- Reading a type comes to taking a word, if there is one, and resolving it. -/
theorem outcome_readType (registry : Registry) (settings : Settings) {bound : Nat}
    (s : Left bound) :
    outcome (readType registry settings s) = (do
      match ← Reading.nextWord? with
      | none => pure none
      | some word =>
        let type ← registry.resolve settings.defaultSpace word
        pure (some type) : Reading Diagnostic (Option ArgType)) s.val := by
  rw [Reading.bind_apply]
  unfold readType Reading.nextWord?
  split
  · rename_i hword
    simp only [hword]
    rfl
  · rename_i hword
    simp only [hword]
    rfl
  · rename_i word s' hword
    simp only [hword]
    rw [Reading.bind_apply]
    split
    · rename_i hresolve
      simp only [hresolve]
      rfl
    · rename_i hresolve
      simp only [hresolve]
      rfl

/-- Taking a type is to take a word, if there is one, and to resolve it. -/
theorem takeType_eq (registry : Registry) (settings : Settings) :
    takeType registry settings = (do
      match ← Reading.nextWord? with
      | none => pure none
      | some word =>
        let type ← registry.resolve settings.defaultSpace word
        pure (some type)) :=
  funext fun _ => outcome_readType registry settings _

/-- Taking a head is to take a name and a type. -/
theorem takeHead_eq (registry : Registry) (settings : Settings) :
    takeHead registry settings = (do
      let name ← takeName .missingNodeName
      let type ← takeType registry settings
      pure ⟨name, type⟩) := by
  funext s
  rw [Reading.bind_apply]
  unfold takeHead readHead
  cases hname : readName .missingNodeName s with
  | error stopped =>
    simp only [takeName, hname]
    rfl
  | ok x =>
    obtain ⟨name, s'⟩ := x
    simp only [takeName, hname, outcome]
    rw [Reading.bind_apply, takeType_eq, ← outcome_readType registry settings s']
    cases readType registry settings s' <;> rfl

/-- A name that is taken is the next token. -/
theorem next_of_takeName {problem : Token → Problem} {s s' : TokenStream} {name : Located String}
    (h : takeName problem s = (.ok name, s')) :
    s.next = (.ok ⟨.word name.value, name.span⟩, s') := by
  rw [takeName_eq] at h
  obtain ⟨⟨value, span⟩, q, hnext, h⟩ := Reading.bind_eq_ok h
  cases value with
  | word text =>
    obtain ⟨rfl, rfl⟩ := Reading.pure_eq_ok h
    exact hnext
  | _ => exact absurd h Reading.fail_ne_ok

/-- Taking a name only takes tokens and looks at them. -/
theorem forward_takeName (problem : Token → Problem) : (takeName problem).Forward := by
  rw [takeName_eq]
  refine Reading.Forward.next.bind fun token => ?_
  split
  · exact .pure _
  · exact .fail _

/-- Taking a type only takes tokens and looks at them. -/
theorem forward_takeType (registry : Registry) (settings : Settings) :
    (takeType registry settings).Forward := by
  rw [takeType_eq]
  refine Reading.Forward.nextWord?.bind fun word => ?_
  cases word with
  | none => exact .pure _
  | some word => exact (registry.forward_resolve _ _).bind fun _ => .pure _

/-- Taking a head only takes tokens and looks at them. -/
theorem forward_takeHead (registry : Registry) (settings : Settings) :
    (takeHead registry settings).Forward := by
  rw [takeHead_eq]
  refine (forward_takeName _).bind fun name => ?_
  exact (forward_takeType registry settings).bind fun _ => .pure _

/-- Behind a type the stream is one that it can become. -/
theorem reaches_of_takeType {registry : Registry} {settings : Settings} {s s' : TokenStream}
    {type : Option ArgType} (h : takeType registry settings s = (.ok type, s')) : s.Reaches s' := by
  have hreach := forward_takeType registry settings s
  rwa [h] at hreach

/-- The name of a head is the next token, and whatever reads the type moves the stream forward. -/
theorem next_of_takeHead {registry : Registry} {settings : Settings} {s s' : TokenStream}
    {head : Head} (h : takeHead registry settings s = (.ok head, s')) :
    ∃ q, s.next = (.ok ⟨.word head.name.value, head.name.span⟩, q) ∧ q.Reaches s' := by
  rw [takeHead_eq] at h
  obtain ⟨name, q, hname, h⟩ := Reading.bind_eq_ok h
  obtain ⟨type, q', htype, h⟩ := Reading.bind_eq_ok h
  obtain ⟨rfl, rfl⟩ := Reading.pure_eq_ok h
  exact ⟨q, next_of_takeName hname, reaches_of_takeType htype⟩

/-- A token that is looked at before a head is the name of the head. -/
theorem eq_name_of_takeHead {registry : Registry} {settings : Settings} {s q s' : TokenStream}
    {token : Located Token} {head : Head} (hpeek : s.peek = (.ok token, q))
    (h : takeHead registry settings q = (.ok head, s')) :
    token = ⟨.word head.name.value, head.name.span⟩ := by
  obtain ⟨q', hnext, -⟩ := next_of_takeHead h
  have hsame := TokenStream.next_of_peeked (TokenStream.peeked_of_peek hpeek)
  rw [hnext, Prod.mk.injEq, Except.ok.injEq] at hsame
  exact hsame.1.symm

/-! ## Bodies and scopes -/

/-- A node below the limit is refused at its name. -/
theorem takeBody_of_limit {registry : Registry} {settings : Settings} {level limit : Nat}
    (head : Head) (h : settings.maxDepth.filter (· < level) = some limit) :
    takeBody registry settings level head =
      Reading.fail (.atSpan (.tooDeep limit head.name.value) head.name.span) := by
  funext s
  unfold takeBody
  rw [readBody]
  split
  · rename_i limit' h'
    rw [h, Option.some.injEq] at h'
    rw [← h']
    rfl
  · rename_i h'
    rw [h] at h'
    contradiction

/-- One round of the loop over the children of a scope, before which `s` has less to come than the
bound. What the later rounds come to is left to `others`. -/
def takeChild (registry : Registry) (settings : Settings) (level : Nat) (parent : String)
    (opening : Span) (seen : Seen) (read : List Tree)
    (others : Seen → List Tree → Reading Diagnostic (List Tree)) :
    Reading Diagnostic (List Tree) := do
  let token ← Reading.peek
  if token.value = .closeScope then
    let _ ← Reading.next
    pure read.reverse
  else
    match childProblem parent opening seen token.value with
    | some problem => Reading.fail (.atSpan problem token.span)
    | none =>
      let head ← takeHead registry settings
      let child ← takeBody registry settings (level + 1) head
      others (noteChild seen token) (child :: read)

/-- Reading the children of a scope comes to one round, and the bound never stops the later ones. -/
theorem outcome_readChildren (registry : Registry) (settings : Settings) (level : Nat)
    (parent : String) (opening : Span) (seen : Seen) (read : List Tree) {bound : Nat}
    (s : Left bound) :
    outcome (readChildren registry settings level parent opening seen read s) =
      takeChild registry settings level parent opening seen read
        (fun seen' read' s' =>
          if h : s'.size < bound then
            outcome (readChildren registry settings level parent opening seen' read'
              (⟨s', h⟩ : Left bound))
          else (.ok [], s')) s.val := by
  unfold takeChild
  rw [Reading.bind_apply, readChildren]
  unfold Reading.peek
  split
  · rename_i hpeek
    simp only [hpeek]
    rfl
  · rename_i token s' hpeek
    simp only [hpeek]
    split
    · rename_i hclose
      have hnext : Reading.next s' = (.ok token, s'.next.2) := by
        rw [Reading.next, TokenStream.next_of_peeked (TokenStream.peeked_of_peek hpeek)]
      rw [Reading.bind_of_ok hnext]
      rfl
    · split
      · rename_i hproblem
        simp only [hproblem]
        rfl
      · rename_i hproblem
        simp only [hproblem]
        rw [Reading.bind_apply]
        cases hhead : readHead registry settings s' with
        | error stopped =>
          simp only [takeHead, hhead]
          rfl
        | ok x =>
          obtain ⟨head, s₁, h₁⟩ := x
          have htake : takeHead registry settings s' = (.ok head, s₁) := by
            rw [takeHead, hhead, outcome]
          simp only [htake]
          cases hbody : readBody registry settings (level + 1) head s₁ with
          | error stopped =>
            refine (Reading.bind_of_error ?_ _).symm
            rw [takeBody, hbody, outcome]
          | ok y =>
            obtain ⟨child, s₂, h₂⟩ := y
            have htakeBody : takeBody registry settings (level + 1) head s₁ = (.ok child, s₂) := by
              rw [takeBody, hbody, outcome]
            have hle : s'.size ≤ s.val.size :=
              TokenStream.size_le_of_reaches (TokenStream.Reaches.peek_of_eq hpeek)
            have hlt : s₂.size < bound := by
              have := s.property
              omega
            refine Eq.trans ?_ (Reading.bind_of_ok htakeBody _).symm
            simp only [dif_pos hlt]

/-- A head that is taken leaves less to come. -/
theorem size_takeHead_lt {registry : Registry} {settings : Settings} {s s' : TokenStream}
    {head : Head} (h : takeHead registry settings s = (.ok head, s')) : s'.size < s.size := by
  unfold takeHead at h
  cases hread : readHead registry settings s with
  | error stopped => simp [hread, outcome] at h
  | ok x =>
    simp only [hread, outcome, Prod.mk.injEq] at h
    rw [← h.2]
    exact x.2.property

/-- A body that is taken leaves less to come. -/
theorem size_takeBody_lt {registry : Registry} {settings : Settings} {level : Nat} {head : Head}
    {s s' : TokenStream} {t : Tree} (h : takeBody registry settings level head s = (.ok t, s')) :
    s'.size < s.size := by
  unfold takeBody at h
  cases hread : readBody registry settings level head s with
  | error stopped => simp [hread, outcome] at h
  | ok x =>
    simp only [hread, outcome, Prod.mk.injEq] at h
    rw [← h.2]
    exact x.2.property

/-- A round leaves less to come for the rounds behind it. -/
theorem takeChild_congr {registry : Registry} {settings : Settings} {level : Nat} {parent : String}
    {opening : Span} {seen : Seen} {read : List Tree}
    {others others' : Seen → List Tree → Reading Diagnostic (List Tree)} {s : TokenStream}
    (h : ∀ seen' read' s', s'.size < s.size → others seen' read' s' = others' seen' read' s') :
    takeChild registry settings level parent opening seen read others s =
      takeChild registry settings level parent opening seen read others' s := by
  refine Reading.bind_congr_of_ok fun token s' hpeek => ?_
  split
  · rfl
  cases childProblem parent opening seen token.value with
  | some problem => rfl
  | none =>
  refine Reading.bind_congr_of_ok fun head s₁ hhead => ?_
  refine Reading.bind_congr_of_ok fun child s₂ hbody => ?_
  refine h _ _ _ ?_
  have hle : s'.size ≤ s.size :=
    TokenStream.size_le_of_reaches (TokenStream.Reaches.peek_of_eq hpeek)
  have hlt₁ := size_takeHead_lt hhead
  have hlt₂ := size_takeBody_lt hbody
  omega

/-- What the children of a scope come to does not depend on the bound. -/
theorem outcome_readChildren_eq_takeChildren {registry : Registry} {settings : Settings}
    {level : Nat} {parent : String} {opening : Span} {seen : Seen} {read : List Tree}
    {bound : Nat} (s : Left bound) :
    outcome (readChildren registry settings level parent opening seen read s) =
      takeChildren registry settings level parent opening seen read s.val := by
  unfold takeChildren
  rw [outcome_readChildren, outcome_readChildren]
  refine takeChild_congr fun seen' read' s' hlt => ?_
  have hlt' : s'.size < bound := Nat.lt_trans hlt s.property
  rw [dif_pos hlt', dif_pos (Nat.lt_succ_of_lt hlt)]
  exact (outcome_readChildren_eq_takeChildren ⟨s', hlt'⟩).trans
    (outcome_readChildren_eq_takeChildren ⟨s', Nat.lt_succ_of_lt hlt⟩).symm
termination_by s.val.size

/-- Taking the children of a scope is one round and then the others. -/
theorem takeChildren_eq (registry : Registry) (settings : Settings) (level : Nat)
    (parent : String) (opening : Span) (seen : Seen) (read : List Tree) :
    takeChildren registry settings level parent opening seen read =
      takeChild registry settings level parent opening seen read
        (takeChildren registry settings level parent opening) := by
  funext s
  rw [takeChildren, outcome_readChildren]
  refine takeChild_congr fun seen' read' s' hlt => ?_
  rw [dif_pos (Nat.lt_succ_of_lt hlt), outcome_readChildren_eq_takeChildren]

/-- Taking a body is to take a semicolon, or a brace and the children behind it. -/
theorem takeBody_eq {registry : Registry} {settings : Settings} {level : Nat} (head : Head)
    (h : settings.maxDepth.filter (· < level) = none) :
    takeBody registry settings level head = (do
      let token ← Reading.next
      match token.value with
      | .terminator => pure (node head.name.value head.type [])
      | .openScope =>
        let children ←
          takeChildren registry settings level head.name.value token.span [] []
        pure (node head.name.value head.type children)
      | other => Reading.fail (.atSpan (.missingBody head.name.value other) token.span)) := by
  funext s
  rw [Reading.bind_apply, takeBody, readBody]
  split
  · rename_i h'
    rw [h] at h'
    contradiction
  unfold Reading.next
  split
  · rename_i hnext
    simp only [hnext]
    rfl
  · rename_i hnext
    simp only [hnext]
    rfl
  · rename_i opening s' hnext
    simp only [hnext]
    rw [Reading.bind_apply,
      ← outcome_readChildren_eq_takeChildren (⟨s', TokenStream.size_next_lt hnext (by simp)⟩ :
        Left s.size)]
    cases readChildren registry settings level head.name.value opening [] []
      (⟨s', TokenStream.size_next_lt hnext (by simp)⟩ : Left s.size) <;> rfl
  · rename_i token s' hne hne' hnext
    obtain ⟨value, span⟩ := token
    simp only [hnext]
    cases value with
    | terminator => exact absurd rfl (hne span)
    | openScope => exact absurd rfl (hne' span)
    | _ => rfl

/-! ## Whole files -/

/-- Taking a root is to take a name that no word follows, and a body. -/
theorem takeRoot_eq (registry : Registry) (settings : Settings) :
    takeRoot registry settings = (do
      let name ← takeName .missingRootName
      let token ← Reading.peek
      if token.value.isWord then
        Reading.fail (.atSpan (.argumentAtRoot name.value) name.span)
      else takeBody registry settings 1 ⟨name, none⟩) := by
  funext s
  rw [Reading.bind_apply]
  unfold takeRoot readRoot
  cases hname : readName .missingRootName s with
  | error stopped =>
    simp only [takeName, hname]
    rfl
  | ok x =>
    obtain ⟨name, s', hs'⟩ := x
    simp only [takeName, hname, outcome]
    rw [Reading.bind_apply, Reading.peek]
    rcases s'.peek with ⟨_ | token, s''⟩
    · rfl
    · by_cases hword : token.value.isWord
      · simp only [hword, if_true]
        rfl
      · simp only [if_neg hword]
        unfold takeBody
        cases readBody registry settings 1 ⟨name, none⟩ s'' <;> rfl

/-- Taking a tree is to take a root and the end of input. -/
theorem takeWhole_eq (registry : Registry) (settings : Settings) :
    takeWhole registry settings = (do
      let root ← takeRoot registry settings
      let token ← Reading.next
      if token.value = .endOfInput then pure root
      else Reading.fail (.atSpan (.trailingInput token.value) token.span)) := by
  funext s
  rw [Reading.bind_apply]
  unfold takeWhole readWhole takeRoot
  rcases readRoot registry settings s with _ | ⟨root, s'⟩
  · rfl
  · dsimp only
    rw [Reading.bind_apply, Reading.next]
    rcases s'.next with ⟨_ | token, s''⟩
    · rfl
    · by_cases hend : token.value = .endOfInput
      · simp only [hend, if_true]
        rfl
      · simp only [hend, if_false]
        rfl

/-- Parsing is to take a tree, and to attach the text that was read to a failure. -/
theorem parse_eq (registry : Registry) (settings : Settings) (source : Source) :
    parse registry settings source =
      match takeWhole registry settings (.ofSource source) with
      | (.ok root, _) => .ok root
      | (.error d, s) => .error (d.withSource settings.sourceName s.loadedText) := by
  unfold parse takeWhole
  rcases readWhole registry settings (.ofSource source) with stopped | ⟨root, s'⟩ <;> rfl

/-- The diagnostic with which a source is refused. -/
def refusal? (registry : Registry) (settings : Settings) (source : Source) : Option Diagnostic :=
  match parse registry settings source with
  | .ok _ => none
  | .error d => some d

/-- A source that is refused has the diagnostic of its parsing. -/
theorem exists_of_refusal? {registry : Registry} {settings : Settings} {source : Source}
    {α : Type} {f : Diagnostic → α} {a : α}
    (h : (refusal? registry settings source).map f = some a) :
    ∃ d, parse registry settings source = .error d ∧ f d = a := by
  unfold refusal? at h
  split at h
  · contradiction
  · rename_i d hparse
    exact ⟨d, hparse, Option.some.inj h⟩

end Tree

end CommandTree
