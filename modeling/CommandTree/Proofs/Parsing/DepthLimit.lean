import CommandTree.Proofs.Grammar.Parsing
import CommandTree.Proofs.Grammar.TreeFailures
import CommandTree.Proofs.Parsing.Outline

/-!
# The limit on nesting

The root is on level one, and a node is below the limit if its level is greater than the limit. A
parse with a limit on nesting does what a parse without one does until it comes to a node below the
limit. There it stops as soon as the head of the node is read. Nothing else depends on the limit.

The level that the parser counts is compared with the levels that the tokens themselves have, as
`Nesting` counts them. That way it can be said where the parse stops even if the rest of the text
forms no tree. `HeldBack` relates what a step of the parser comes to with the limit and without it;
it also keeps account of the nodes that were named on the way, none of which is below the limit.
-/

set_option autoImplicit false

namespace CommandTree

/-- The same settings with another greatest number of levels. -/
def Settings.limited (settings : Settings) (limit : Option Nat) : Settings :=
  { settings with maxDepth := limit }

/-! ## Tokens above the limit -/

/-- Tokens lead from one nesting to another and name no node below the limit. -/
structure Nesting.Leads (limit : Nat) (n : Nesting) (taken : List (Located Token)) (n' : Nesting) :
    Prop where
  above : ∀ node ∈ n.nodes (taken.map Located.value), node.1 ≤ limit
  after_eq : n.after (taken.map Located.value) = n'

/-- The diagnostic reports the depth of a node and points at its name, which stands behind the
tokens `before`. The node is right below the limit, and no node that is below the limit is named
before it. -/
structure Diagnostic.PointsBelow (d : Diagnostic) (limit : Nat) (n : Nesting)
    (before : List (Located Token)) (name : Located String) (ahead : List (Located Token)) :
    Prop where
  kind_eq : d.kind = .structural
  message_eq : d.message =
    "nesting depth exceeds " ++ toString limit ++ " at node '" ++ name.value ++ "'"
  span_eq : d.span = some name.span
  stands : ∃ rest, ahead = before ++ ⟨.word name.value, name.span⟩ :: rest
  leads : n.Leads limit before ⟨limit + 1, false⟩

/-- What a step comes to with the limit, `x`, and without it, `y`. Either the limit does not matter,
and where the step succeeds it took tokens that name no node below the limit. Or the limit stopped
the step at a node that is too deep. -/
inductive HeldBack {α : Type} (limit : Nat) (n n' : Nesting) (ahead : List (Located Token))
    (x y : Except Diagnostic α × TokenStream) : Prop where
  | agrees : x = y →
      (∀ a s', x = (.ok a, s') → ∃ taken, ahead = taken ++ s'.sequence ∧ n.Leads limit taken n') →
      HeldBack limit n n' ahead x y
  | stops (d : Diagnostic) (s' : TokenStream) (before : List (Located Token))
      (name : Located String) : x = (.error d, s') → d.PointsBelow limit n before name ahead →
      HeldBack limit n n' ahead x y

variable {α β : Type} {limit : Nat} {n n' n'' : Nesting} {ahead rest taken : List (Located Token)}

namespace Nesting.Leads

/-- Without a token a nesting stays as it is. -/
theorem nil (limit : Nat) (n : Nesting) : n.Leads limit [] n := ⟨nofun, rfl⟩

/-- Tokens one behind the other lead from the first nesting to the last one. -/
theorem append {us : List (Located Token)} (h : n.Leads limit taken n')
    (h' : n'.Leads limit us n'') : n.Leads limit (taken ++ us) n'' := by
  constructor
  · rw [List.map_append, nodes_append, h.after_eq]
    intro node hnode
    rcases List.mem_append.mp hnode with hnode | hnode
    · exact h.above node hnode
    · exact h'.above node hnode
  · rw [List.map_append, after_append, h.after_eq, h'.after_eq]

/-- A token that is no word names no node. -/
theorem of_other (n : Nesting) {t : Located Token} (ht : t.value.isWord = false) :
    n.Leads limit [t] (n.step t.value) := by
  obtain ⟨value, span⟩ := t
  cases value with
  | word => simp [Token.isWord] at ht
  | _ => exact ⟨by simp [nodes, node?], rfl⟩

/-- The words of a type name no node. -/
theorem of_words {level : Nat} {words : List String}
    (hvalues : taken.map Located.value = words.map .word) :
    Leads limit ⟨level, true⟩ taken ⟨level, true⟩ := by
  constructor
  · rw [hvalues, nodes_words]
    nofun
  · rw [hvalues, after_words]

/-- The name of a node above the limit. -/
theorem of_name {level : Nat} (hlevel : level ≤ limit) (name : Located String) :
    Leads limit ⟨level, false⟩ [⟨.word name.value, name.span⟩] ⟨level, true⟩ := by
  refine ⟨?_, rfl⟩
  intro node hnode
  rw [List.mem_singleton.mp hnode]
  exact hlevel

end Nesting.Leads

/-- A node that is too deep behind some tokens is too deep behind those in front of them as well. -/
theorem Diagnostic.PointsBelow.behind {d : Diagnostic} {before : List (Located Token)}
    {name : Located String} (hahead : ahead = taken ++ rest) (hleads : n.Leads limit taken n')
    (h : d.PointsBelow limit n' before name rest) :
    d.PointsBelow limit n (taken ++ before) name ahead := by
  refine ⟨h.kind_eq, h.message_eq, h.span_eq, ?_, hleads.append h.leads⟩
  obtain ⟨others, hrest⟩ := h.stands
  exact ⟨others, by rw [hahead, hrest, List.append_assoc]⟩

/-! ## Putting steps together -/

namespace HeldBack

variable {s : TokenStream} {m m' : Reading Diagnostic α} {f f' : α → Reading Diagnostic β}

/-- Returning does not depend on the limit. -/
theorem pure (a : α) :
    HeldBack limit n n s.sequence ((Pure.pure a : Reading Diagnostic α) s)
      ((Pure.pure a : Reading Diagnostic α) s) := by
  refine .agrees rfl fun b s' h => ?_
  obtain ⟨-, rfl⟩ := Reading.pure_eq_ok h
  exact ⟨[], rfl, .nil limit n⟩

/-- Failing does not depend on the limit. -/
theorem fail (d : Diagnostic) :
    HeldBack limit n n' ahead ((Reading.fail d : Reading Diagnostic α) s)
      ((Reading.fail d : Reading Diagnostic α) s) :=
  .agrees rfl fun _ _ h => absurd h Reading.fail_ne_ok

/-- What is held back behind some tokens is held back in front of them. -/
theorem behind {x y : Except Diagnostic α × TokenStream} (hahead : ahead = taken ++ rest)
    (hleads : n.Leads limit taken n') (h : HeldBack limit n' n'' rest x y) :
    HeldBack limit n n'' ahead x y := by
  cases h with
  | agrees heq htaken =>
    refine .agrees heq fun a s' hx => ?_
    obtain ⟨us, hrest, hleads'⟩ := htaken a s' hx
    refine ⟨taken ++ us, ?_, hleads.append hleads'⟩
    rw [hahead, hrest, List.append_assoc]
  | stops d s' before name hx hpoints =>
    exact .stops d s' (taken ++ before) name hx (hpoints.behind hahead hleads)

/-- A step that does not depend on the limit. -/
theorem bind_same
    (hf : ∀ a s', m s = (.ok a, s') → HeldBack limit n n' ahead (f a s') (f' a s')) :
    HeldBack limit n n' ahead ((m >>= f) s) ((m >>= f') s) := by
  rcases hm : m s with ⟨d | a, s'⟩
  · rw [Reading.bind_of_error hm, Reading.bind_of_error hm]
    exact .agrees rfl nofun
  · rw [Reading.bind_of_ok hm, Reading.bind_of_ok hm]
    exact hf a s' hm

/-- Readings that are held back are so in sequence, whichever of them the limit stops. -/
theorem bind (hm : HeldBack limit n n' ahead (m s) (m' s))
    (hf : ∀ a s', m s = (.ok a, s') → HeldBack limit n' n'' s'.sequence (f a s') (f' a s')) :
    HeldBack limit n n'' ahead ((m >>= f) s) ((m' >>= f') s) := by
  cases hm with
  | agrees heq htaken =>
    have hsame : (m' >>= f') s = (m >>= f') s := by
      rw [Reading.bind_apply, Reading.bind_apply, heq]
    rw [hsame]
    refine bind_same fun a s' ha => ?_
    obtain ⟨taken, hahead, hleads⟩ := htaken a s' ha
    exact (hf a s' ha).behind hahead hleads
  | stops d s' before name hx hpoints =>
    exact .stops d s' before name (Reading.bind_of_error hx f) hpoints

end HeldBack

/-! ## Bodies and scopes -/

namespace Tree

variable {registry : Registry} {settings : Settings}

/-- The limit plays no part in the head of a node. -/
theorem takeHead_limited (registry : Registry) (settings : Settings) (limit : Option Nat) :
    takeHead registry (settings.limited limit) = takeHead registry (settings.limited none) := by
  rw [takeHead_eq, takeHead_eq, takeType_eq, takeType_eq]
  rfl

/-- A level that is within the limit is not stopped. -/
theorem filter_maxDepth_limited {level : Nat} (hlevel : level ≤ limit) :
    (settings.limited (some limit)).maxDepth.filter (· < level) = none := by
  simpa [Settings.limited, Option.filter] using hlevel

/-- A node below the limit is given up as soon as its head is read. -/
theorem takeBody_below {level : Nat} (hlevel : limit < level) (head : Head) :
    takeBody registry (settings.limited (some limit)) level head =
      Reading.fail (.atSpan (.tooDeep limit head.name.value) head.name.span) :=
  takeBody_of_limit head (by simpa [Settings.limited, Option.filter] using hlevel)

/-- A name right below the limit is where the parse stops. -/
theorem heldBack_below {s s' : TokenStream} {name : Located String}
    {y : Except Diagnostic α × TokenStream} {rest : List (Located Token)}
    (hread : s.sequence = ⟨.word name.value, name.span⟩ :: rest) :
    HeldBack limit ⟨limit + 1, false⟩ n s.sequence
      (.error (.atSpan (.tooDeep limit name.value) name.span), s') y := by
  exact .stops _ s' [] name rfl ⟨rfl, rfl, rfl, ⟨rest, hread⟩, .nil limit _⟩

mutual

/-- The body of a node within the limit is taken as without it, up to a node that is too deep. -/
theorem heldBack_takeBody (hready : registry.ReadyMade) {level : Nat} (hlevel : level ≤ limit)
    (head : Head) (s : TokenStream) :
    HeldBack limit ⟨level, true⟩ ⟨level, false⟩ s.sequence
      (takeBody registry (settings.limited (some limit)) level head s)
      (takeBody registry (settings.limited none) level head s) := by
  rw [takeBody_eq head (filter_maxDepth_limited hlevel), takeBody_eq head rfl]
  refine HeldBack.bind_same fun token q hnext => ?_
  obtain ⟨value, span⟩ := token
  cases value with
  | terminator =>
    have hsequence : s.sequence = [⟨.terminator, span⟩] ++ q.sequence :=
      TokenStream.sequence_of_next hnext (by simp)
    exact (HeldBack.pure _).behind hsequence (.of_other _ rfl)
  | openScope =>
    have hlt := TokenStream.size_next_lt hnext (by simp)
    have hsequence : s.sequence = [⟨.openScope, span⟩] ++ q.sequence :=
      TokenStream.sequence_of_next hnext (by simp)
    refine HeldBack.behind hsequence (.of_other _ rfl) ?_
    refine (heldBack_takeChildren hready hlevel _ _ _ _ q).bind fun children q' _ => ?_
    exact HeldBack.pure _
  | _ => exact HeldBack.fail _
termination_by s.size
decreasing_by exact hlt

/-- The children of a scope are taken as without the limit, up to a node that is too deep. -/
theorem heldBack_takeChildren (hready : registry.ReadyMade) {level : Nat} (hlevel : level ≤ limit)
    (parent : String) (opening : Span) (seen : Seen) (read : List Tree) (s : TokenStream) :
    HeldBack limit ⟨level + 1, false⟩ ⟨level, false⟩ s.sequence
      (takeChildren registry (settings.limited (some limit)) level parent opening seen read s)
      (takeChildren registry (settings.limited none) level parent opening seen read s) := by
  rw [takeChildren_eq, takeChildren_eq]
  refine HeldBack.bind_same fun token q hpeek => ?_
  have hle := TokenStream.size_le_of_reaches (TokenStream.Reaches.peek_of_eq hpeek)
  rw [TokenStream.sequence_of_peek hpeek]
  by_cases hclose : token.value = .closeScope
  · rw [if_pos hclose, if_pos hclose]
    refine HeldBack.bind_same fun t q' hnext => ?_
    have hsame := TokenStream.next_of_peeked (TokenStream.peeked_of_peek hpeek)
    cases hsame.symm.trans hnext
    have hsequence := TokenStream.sequence_of_next hnext (by simp [hclose])
    have hleads : Nesting.Leads limit ⟨level + 1, false⟩ [token] ⟨level, false⟩ := by
      obtain ⟨value, span⟩ := token
      obtain rfl : value = .closeScope := hclose
      exact .of_other _ rfl
    exact (HeldBack.pure _).behind hsequence hleads
  rw [if_neg hclose, if_neg hclose]
  cases childProblem parent opening seen token.value with
  | some problem => exact HeldBack.fail _
  | none =>
    rw [takeHead_limited]
    refine HeldBack.bind_same fun head s₁ hhead => ?_
    obtain ⟨q', hname, taken, words, hq', hvalues, -⟩ := takesAll_of_takeHead hready hhead
    by_cases hbelow : limit < level + 1
    · -- the children of this scope are below the limit, so the first of them is
      obtain rfl : level = limit := by omega
      rw [takeBody_below hbelow]
      exact heldBack_below hname
    have hallowed : level + 1 ≤ limit := by omega
    have hlt₁ := Nat.lt_of_lt_of_le (size_takeHead_lt hhead) hle
    have hsequence : q.sequence = [⟨.word head.name.value, head.name.span⟩] ++ q'.sequence := hname
    refine HeldBack.behind hsequence (.of_name hallowed head.name) ?_
    refine HeldBack.behind hq' (.of_words hvalues) ?_
    refine (heldBack_takeBody hready hallowed head s₁).bind fun child s₂ hbody => ?_
    have hlt₂ := Nat.lt_trans (size_takeBody_lt hbody) hlt₁
    exact heldBack_takeChildren hready hlevel _ _ _ _ s₂
termination_by s.size
decreasing_by
  · exact hlt₁
  · exact hlt₂

end

/-! ## Whole files -/

/-- A root is taken as without the limit, up to a node that is too deep. -/
theorem heldBack_takeRoot (hready : registry.ReadyMade) (settings : Settings) (limit : Nat)
    (s : TokenStream) :
    HeldBack limit .start .start s.sequence
      (takeRoot registry (settings.limited (some limit)) s)
      (takeRoot registry (settings.limited none) s) := by
  rw [takeRoot_eq, takeRoot_eq]
  refine HeldBack.bind_same fun name q hname => ?_
  have hsequence := TokenStream.sequence_of_next (next_of_takeName hname) (by simp)
  refine HeldBack.bind_same fun token q' hpeek => ?_
  split
  · exact HeldBack.fail _
  by_cases hbelow : limit < 1
  · obtain rfl : limit = 0 := by omega
    rw [takeBody_below hbelow]
    exact heldBack_below hsequence
  have hallowed : 1 ≤ limit := by omega
  have hbehind : s.sequence = [⟨.word name.value, name.span⟩] ++ q'.sequence := by
    rw [hsequence, TokenStream.sequence_of_peek hpeek, List.singleton_append]
  exact (heldBack_takeBody hready hallowed _ q').behind hbehind (.of_name hallowed name)

/-- A command file is taken as without the limit, or refused for its first node that is too deep. -/
theorem takeWhole_limited (hready : registry.ReadyMade) (settings : Settings) (limit : Nat)
    (s : TokenStream) :
    takeWhole registry (settings.limited (some limit)) s =
        takeWhole registry (settings.limited none) s ∨
      ∃ d s' before name, takeWhole registry (settings.limited (some limit)) s = (.error d, s') ∧
        d.PointsBelow limit .start before name s.sequence := by
  rw [takeWhole_eq, takeWhole_eq]
  cases heldBack_takeRoot hready settings limit s with
  | agrees heq _ =>
    left
    rw [Reading.bind_apply, Reading.bind_apply, heq]
  | stops d s' before name hx hpoints =>
    right
    exact ⟨d, s', before, name, Reading.bind_of_error hx _, hpoints⟩

/-- With a limit a source comes to what it comes to without one, unless the parse is stopped at the
first name below the limit. -/
theorem parse_limited (hready : registry.ReadyMade) (settings : Settings) (source : Source)
    (limit : Nat) :
    parse registry (settings.limited (some limit)) source =
        parse registry (settings.limited none) source ∨
      ∃ d before name, parse registry (settings.limited (some limit)) source = .error d ∧
        d.PointsBelow limit .start before name (TokenStream.ofSource source).sequence := by
  rw [parse_eq, parse_eq]
  obtain heq | ⟨d, s', before, name, hfails, hpoints⟩ :=
    takeWhole_limited hready settings limit (.ofSource source)
  · left
    rw [heq]
    rfl
  · right
    rw [hfails]
    refine ⟨_, before, name, rfl, ?_⟩
    exact ⟨hpoints.kind_eq, hpoints.message_eq, hpoints.span_eq, hpoints.stands, hpoints.leads⟩

/-- Limits matter to a derivation only through the depth of its tree. -/
theorem parse_limited_eq_ok_iff (hready : registry.ReadyMade) {source : Source} {t : Tree}
    (limit : Option Nat) :
    parse registry (settings.limited limit) source = .ok t ↔
      parse registry (settings.limited none) source = .ok t ∧ limit.all (t.depth ≤ ·) = true := by
  rw [parse_eq_ok_iff_derives hready, parse_eq_ok_iff_derives hready]
  constructor
  · rintro ⟨p, hlexes, hliteral, hdenotes, hdistinct, hallowed⟩
    exact ⟨⟨p, hlexes, hliteral, hdenotes, hdistinct, rfl⟩, hallowed⟩
  · rintro ⟨⟨p, hlexes, hliteral, hdenotes, hdistinct, -⟩, hallowed⟩
    exact ⟨p, hlexes, hliteral, hdenotes, hdistinct, hallowed⟩

/-- In a text that forms a tree, the first name below the limit is that of the first node below the
limit. -/
theorem exists_node_of_pointsBelow (hready : registry.ReadyMade) {source : Source} {t : Tree}
    (h : parse registry settings source = .ok t) {d : Diagnostic} {before : List (Located Token)}
    {name : Located String}
    (hpoints : d.PointsBelow limit .start before name (TokenStream.ofSource source).sequence) :
    ∃ visited path u others, t.walk = visited ++ (path, u) :: others ∧
      Nesting.start.nodes (before.map Located.value) = visited.map levelAndName ∧
      path.length = limit + 1 ∧ u.name = name.value ∧ ∀ v ∈ visited, v.1.length ≤ limit := by
  obtain ⟨p, hp⟩ := (parse_eq_ok_iff_derives hready).mp h
  obtain ⟨rest, hread⟩ := hpoints.stands
  have hnodes := hp.nodes_sequence
  rw [hread, List.map_append, Nesting.nodes_append, hpoints.leads.after_eq] at hnodes
  obtain ⟨visited, others, hwalk, hvisited, hothers⟩ := List.map_eq_append_iff.mp hnodes.symm
  obtain ⟨⟨path, u⟩, others, rfl, hnode, -⟩ := List.map_eq_cons_iff.mp hothers
  obtain ⟨hlength, hname⟩ := Prod.mk.inj hnode
  refine ⟨visited, path, u, others, hwalk, hvisited.symm, hlength, hname, ?_⟩
  intro v hv
  apply hpoints.leads.above (levelAndName v)
  rw [← hvisited]
  exact List.mem_map_of_mem hv

/-- The limit on nesting is exact and otherwise invisible. A tree within the limit is parsed as
without one. Of a deeper tree the first node in pre-order that is below the limit is reported, at
its name. A text that forms no tree fails as without a limit, or because a node right below the
limit comes first. -/
theorem depth_limit_is_exact (hready : registry.ReadyMade) (settings : Settings) (source : Source)
    (limit : Nat) :
    (∀ t, parse registry (settings.limited none) source = .ok t → t.depth ≤ limit →
      parse registry (settings.limited (some limit)) source = .ok t) ∧
    (∀ t, parse registry (settings.limited none) source = .ok t → limit < t.depth →
      ∃ d before name, parse registry (settings.limited (some limit)) source = .error d ∧
        d.PointsBelow limit .start before name (TokenStream.ofSource source).sequence ∧
        ∃ visited path u others, t.walk = visited ++ (path, u) :: others ∧
          Nesting.start.nodes (before.map Located.value) = visited.map levelAndName ∧
          path.length = limit + 1 ∧ u.name = name.value ∧ ∀ v ∈ visited, v.1.length ≤ limit) ∧
    (∀ e, parse registry (settings.limited none) source = .error e →
      parse registry (settings.limited (some limit)) source = .error e ∨
      ∃ d before name, parse registry (settings.limited (some limit)) source = .error d ∧
        d.PointsBelow limit .start before name (TokenStream.ofSource source).sequence) ∧
    ∀ t, parse registry (settings.limited (some limit)) source = .ok t →
      parse registry (settings.limited none) source = .ok t ∧
      ∀ larger, limit ≤ larger →
        parse registry (settings.limited (some larger)) source = .ok t := by
  have hlimited := parse_limited hready settings source limit
  refine ⟨?_, ?_, ?_, ?_⟩
  · intro t hfree hdepth
    exact (parse_limited_eq_ok_iff hready _).mpr ⟨hfree, by simpa using hdepth⟩
  · intro t hfree hdepth
    obtain hsame | ⟨d, before, name, hfails, hpoints⟩ := hlimited
    · -- the parse cannot succeed, because it would allow the depth of the tree
      rw [hfree, parse_limited_eq_ok_iff hready] at hsame
      have hle : t.depth ≤ limit := by simpa using hsame.2
      omega
    · exact ⟨d, before, name, hfails, hpoints, exists_node_of_pointsBelow hready hfree hpoints⟩
  · intro e hfree
    rwa [hfree] at hlimited
  · intro t hheld
    obtain ⟨hfree, hdepth⟩ := (parse_limited_eq_ok_iff hready _).mp hheld
    have hle : t.depth ≤ limit := by simpa using hdepth
    refine ⟨hfree, fun larger hlarger => ?_⟩
    have hle' : t.depth ≤ larger := Nat.le_trans hle hlarger
    exact (parse_limited_eq_ok_iff hready _).mpr ⟨hfree, by simpa using hle'⟩

/-- A tree of three levels with three limits, and a text in which the limit is noticed before the
semicolon that is missing. -/
theorem depth_limit_at_three_levels :
    let registry : Registry := ⟨[.brigadier]⟩
    let source := Source.ofString "r { a bool; b { c; } }"
    let broken := Source.ofString "r { a }"
    registry.ReadyMade ∧
    (∃ t d before name, parse registry (Settings.standard.limited none) source = .ok t ∧
      parse registry (Settings.standard.limited (some 3)) source = .ok t ∧
      parse registry (Settings.standard.limited (some 128)) source = .ok t ∧
      parse registry (Settings.standard.limited (some 2)) source = .error d ∧
      d.PointsBelow 2 .start before name (TokenStream.ofSource source).sequence) ∧
    ∃ d before name, parse registry (Settings.standard.limited (some 1)) broken = .error d ∧
      d.PointsBelow 1 .start before name (TokenStream.ofSource broken).sequence := by
  intro registry source broken
  have hready : registry.ReadyMade := by simp [registry, Registry.ReadyMade, Resolver.isReadyMade]
  have hthree : (parse registry (Settings.standard.limited none) source).toOption.map depth =
      some 3 := by
    decide +kernel
  have hunlimited : (refusal? registry (Settings.standard.limited none) broken).map
      Diagnostic.message = some "expected '\x7b' or ';' to end node 'a', found '\x7d'" := by
    decide +kernel
  have hlimited : (refusal? registry (Settings.standard.limited (some 1)) broken).map
      Diagnostic.message = some "nesting depth exceeds 1 at node 'a'" := by
    decide +kernel
  refine ⟨hready, ?_, ?_⟩
  · cases hfree : parse registry (Settings.standard.limited none) source with
    | error d =>
      rw [hfree] at hthree
      contradiction
    | ok t =>
      rw [hfree] at hthree
      have hdepth : t.depth = 3 := Option.some.inj hthree
      obtain ⟨hwithin, -, -, hlarger⟩ := depth_limit_is_exact hready .standard source 3
      obtain ⟨-, hdeeper, -, -⟩ := depth_limit_is_exact hready .standard source 2
      have hheld := hwithin t hfree (by omega)
      obtain ⟨d, before, name, hfails, hpoints, -⟩ := hdeeper t hfree (by omega)
      exact ⟨t, d, before, name, rfl, hheld, (hlarger t hheld).2 128 (by omega), hfails, hpoints⟩
  · obtain ⟨-, -, hfails, -⟩ := depth_limit_is_exact hready .standard broken 1
    obtain ⟨e, hparse, he⟩ := exists_of_refusal? hunlimited
    obtain ⟨d, hparse', hd⟩ := exists_of_refusal? hlimited
    obtain hsame | hpoints := hfails e hparse
    · obtain rfl : d = e := Except.error.inj (hparse'.symm.trans hsame)
      exact absurd (hd.symm.trans he) (by decide)
    · exact hpoints

end Tree

end CommandTree
