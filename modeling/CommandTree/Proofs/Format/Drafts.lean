import CommandTree.Proofs.Format.RoundTrip
import CommandTree.Proofs.Parsing.Recursion
import CommandTree.Proofs.Trees.Building

/-!
# Drafts that are built and drafts that are written

There are two ways from a draft to a tree. `Draft.build` looks for siblings of one name while it
goes through the draft. `Draft.assemble` does not look for them, and the tree that it makes can be
written and parsed, where the parser finds them. Both ways end in the same tree or in the same
duplicate, however many duplicates there are.

The reason is that both compare a name with the names of the siblings in front of it before they go
into the node, and that both are through with a node before they come to its next sibling. The names
that were seen are kept in different forms, so the invariant of the two loops is that a name is
found in one form exactly if it is in the other. Depth has to be unlimited because a draft of any
depth can be built.
-/

set_option autoImplicit false

namespace CommandTree

namespace Draft

/-- A draft with a new name is built, and then those behind it are, as if both were to follow trees
that there are already. -/
theorem map_buildAll_of_notMem {parent : String} {seen : List String} {d : Draft}
    (h : d.name ∉ seen) (ds : List Draft) (read : List Tree) :
    (buildAll parent seen (d :: ds)).map (read.reverse ++ ·) =
      (build d >>= fun t =>
        (buildAll parent (d.name :: seen) ds).map ((t :: read).reverse ++ ·)) := by
  rw [buildAll_of_notMem h]
  cases build d with
  | error e => rfl
  | ok t =>
    show ((buildAll parent (d.name :: seen) ds).map (t :: ·)).map (read.reverse ++ ·) =
      (buildAll parent (d.name :: seen) ds).map ((t :: read).reverse ++ ·)
    cases buildAll parent (d.name :: seen) ds with
    | error e => rfl
    | ok ts => simp [Except.map]

end Draft

/-! ## Types -/

namespace Registry

variable {registry : Registry}

/-- The name of a built-in type is resolved to that type, whatever the registry holds. -/
theorem resolve_name (builtin : Builtin) (span : Span) (defaultSpace : String) :
    registry.resolve defaultSpace ⟨builtin.name, span⟩ = builtin.read := by
  rw [resolve, Builtin.ofName?_name]

/-- The text of a key is resolved by the first resolver that claims the key. -/
theorem resolve_text {key : Key} {resolver : Resolver}
    (h : registry.find? key = some resolver) (span : Span) (defaultSpace : String) :
    registry.resolve defaultSpace ⟨key.text, span⟩ =
      Reading.mapError (diagnose ⟨key.text, span⟩ key resolver) (resolver.read key) := by
  rw [resolve, Builtin.ofName?_text]
  simp only [Key.parse_text, h]

end Registry

namespace ArgType

variable {registry : Registry}

/-- In front of a token that is no word, the words of a type are resolved to the type. -/
def ReadBack (registry : Registry) (defaultSpace : String) (type : ArgType) : Prop :=
  ∃ word words, type.words = word :: words ∧
    ∀ (span : Span) (s : TokenStream) (other : Token) (rest : List Token), other.isWord = false →
      s.Upcoming (words.map .word ++ other :: rest) →
      ∃ s', registry.resolve defaultSpace ⟨word, span⟩ s = (.ok type, s') ∧
        s'.Upcoming (other :: rest)

/-- A type whose words are the name of a built-in type and parameters that declare it is read
back. -/
theorem ReadBack.of_declares {defaultSpace : String} {type : ArgType} (builtin : Builtin)
    {words : List String} (hwords : type.words = builtin.name :: words)
    (h : builtin.Declares words type) : ReadBack registry defaultSpace type := by
  refine ⟨builtin.name, words, hwords, fun span s other rest hother hs => ?_⟩
  rw [Registry.resolve_name]
  exact builtin.accepts_read.complete h hother hs

/-- A type that can be read again is read back from its words. -/
theorem ReadBack.of_rereadable (defaultSpace : String) {type : ArgType}
    (h : type.Rereadable registry) : ReadBack registry defaultSpace type := by
  cases type with
  | bool => exact .of_declares .bool rfl .bool
  | string mode => exact .of_declares .string rfl (.string mode)
  | number kind lower upper =>
    have hwords := NumberKind.declaresBounds_boundWords h
    exact .of_declares (.number kind) rfl (.number hwords)
  | extension space name payload =>
    obtain ⟨key, resolver, rfl, rfl, hfind, hread⟩ := h
    refine ⟨key.text, payload, rfl, fun span s other rest hother hs => ?_⟩
    -- a type is only said to be read again in front of one token, but others may follow
    have hpayload : s.Upcoming (payload.map .word ++ [other]) := by
      rw [← List.singleton_append, ← List.append_assoc] at hs
      exact hs.of_append
    obtain ⟨s', hok, hconsumes⟩ := hread s other hother hpayload
    refine ⟨s', ?_, (hconsumes _).mp hs⟩
    rw [Registry.resolve_text hfind]
    exact Reading.mapError_eq_ok_iff.mpr hok

end ArgType

namespace Tree

variable {registry : Registry} {settings : Settings} {s : TokenStream}

/-! ## Heads -/

/-- The words of a type, or none for a literal, are taken as that type. -/
theorem takeType_of_upcoming (settings : Settings) {type : Option ArgType}
    (h : ∀ a, type = some a → a.Rereadable registry) {other : Token} {rest : List Token}
    (hother : other.isWord = false)
    (hs : s.Upcoming (((type.map ArgType.words).getD []).map .word ++ other :: rest)) :
    ∃ s', takeType registry settings s = (.ok type, s') ∧ s'.Upcoming (other :: rest) := by
  rw [takeType_eq]
  cases type with
  | none =>
    obtain ⟨s', hword, hs'⟩ := TokenStream.nextWord?_of_other hs hother
    exact ⟨s', Reading.bind_of_ok hword _, hs'⟩
  | some a =>
    obtain ⟨word, words, hwords, hread⟩ :=
      ArgType.ReadBack.of_rereadable settings.defaultSpace (h a rfl)
    rw [Option.map_some, Option.getD_some, hwords] at hs
    obtain ⟨span, q, hword, hq⟩ := TokenStream.nextWord?_of_word hs
    obtain ⟨s', hok, hs'⟩ := hread span q other rest hother hq
    refine ⟨s', (Reading.bind_of_ok hword _).trans ?_, hs'⟩
    exact Reading.bind_of_ok hok _

/-- A word that is upcoming is taken as a name. -/
theorem takeName_of_upcoming (problem : Token → Problem) {name : String} {rest : List Token}
    (h : s.Upcoming (.word name :: rest)) :
    ∃ span s', takeName problem s = (.ok ⟨name, span⟩, s') ∧ s'.Upcoming rest := by
  obtain ⟨span, left, hread, hleft⟩ := readName_of_upcoming problem h
  exact ⟨span, left.val, by rw [takeName, hread, outcome], hleft⟩

/-- The head of a tree is read where its phrase is upcoming. -/
theorem takeHead_of_upcoming (settings : Settings) (t : Tree)
    (h : ∀ a, t.type = some a → a.Rereadable registry)
    {rest : List Token} (hs : s.Upcoming (t.phrase.tokens ++ rest)) :
    ∃ span s', takeHead registry settings s = (.ok ⟨⟨t.name, span⟩, t.type⟩, s') ∧
      s'.Upcoming (t.phrase.body ++ rest) := by
  obtain ⟨first, others, hbody, hfirst⟩ := t.phrase.body_eq_cons
  rw [Phrase.tokens_eq, name_phrase, words_phrase, hbody] at hs
  simp only [List.cons_append, List.append_assoc] at hs
  obtain ⟨span, q, hname, hq⟩ := takeName_of_upcoming .missingNodeName hs
  obtain ⟨s', htype, hs'⟩ := takeType_of_upcoming settings h hfirst hq
  refine ⟨span, s', ?_, hbody ▸ hs'⟩
  rw [takeHead_eq, Reading.bind_of_ok hname, Reading.bind_of_ok htype]
  rfl

/-! ## Children and roots -/

section

variable {level : Nat} {parent name : String} {opening span : Span} {seen : Seen}
  {read : List Tree} {others : Seen → List Tree → Reading Diagnostic (List Tree)}
  {q : TokenStream}

/-- At the closing brace the children are complete. -/
theorem takeChild_of_close (h : s.peek = (.ok ⟨.closeScope, span⟩, q)) :
    takeChild registry settings level parent opening seen read others s =
      (.ok read.reverse, q.next.2) := by
  have hnext : Reading.next q = (.ok ⟨.closeScope, span⟩, q.next.2) := by
    rw [Reading.next, TokenStream.next_of_peeked (TokenStream.peeked_of_peek h)]
  exact (Reading.bind_of_ok h _).trans (Reading.bind_of_ok hnext _)

/-- A name that was seen is refused with the place of the first sibling that has it. -/
theorem takeChild_of_duplicate (h : s.peek = (.ok ⟨.word name, span⟩, q)) {first : Span}
    (hseen : seen.lookup name = some first) :
    takeChild registry settings level parent opening seen read others s =
      (.error (.atSpan (.duplicateChild ⟨parent, name⟩ first) span), q) := by
  refine (Reading.bind_of_ok h _).trans ?_
  simp [childProblem, hseen, Reading.fail]

/-- At a new name a child is taken, and the later rounds know its name. -/
theorem takeChild_of_new (h : s.peek = (.ok ⟨.word name, span⟩, q))
    (hseen : seen.lookup name = none) :
    takeChild registry settings level parent opening seen read others s =
      (do
        let head ← takeHead registry settings
        let child ← takeBody registry settings (level + 1) head
        others ((name, span) :: seen) (child :: read) : Reading Diagnostic (List Tree)) q := by
  refine (Reading.bind_of_ok h _).trans ?_
  simp only [childProblem, hseen]
  rfl

end

/-- A root whose name is followed by no word has no type, and its body is next. -/
theorem takeRoot_of_name {name : Located String} {token : Located Token} {s' q : TokenStream}
    (h : takeName .missingRootName s = (.ok name, s')) (hpeek : s'.peek = (.ok token, q))
    (htoken : token.value.isWord = false) :
    takeRoot registry settings s = takeBody registry settings 1 ⟨name, none⟩ q := by
  rw [takeRoot_eq, Reading.bind_of_ok h]
  refine (Reading.bind_of_ok hpeek _).trans ?_
  rw [if_neg (by simp [htoken])]

/-! ## Building and reading side by side -/

/-- Reading comes to what building comes to: to the same result, with certain tokens upcoming behind
it, or to the same duplicate. -/
inductive Mirrors {α : Type} (rest : List Token) :
    (built : Except DuplicateChild α) → (read : Except Diagnostic α × TokenStream) → Prop where
  /-- Both have a result. -/
  | result (a : α) {s : TokenStream} : s.Upcoming rest → Mirrors rest (.ok a) (.ok a, s)
  /-- Both have a duplicate. -/
  | duplicate {d : DuplicateChild} {e : Diagnostic} {first : Span} (s : TokenStream) :
    e.problem = .duplicateChild d first → Mirrors rest (.error d) (.error e, s)

/-- Reading and building stay alike in sequence, if they are alike in each step. -/
theorem Mirrors.bind {α β : Type} {rest rest' : List Token} {built : Except DuplicateChild α}
    {m : Reading Diagnostic α} {f : α → Except DuplicateChild β} {g : α → Reading Diagnostic β}
    (h : Mirrors rest built (m s))
    (hf : ∀ a s', s'.Upcoming rest → Mirrors rest' (f a) (g a s')) :
    Mirrors rest' (built >>= f) ((m >>= g) s) := by
  generalize hm : m s = x at h
  cases h with
  | result a hs' =>
    rw [Reading.bind_of_ok hm]
    exact hf a _ hs'
  | duplicate s' he =>
    rw [Reading.bind_of_error hm]
    exact .duplicate s' he

/-- Reading and building stay alike when their results are put to the same use. -/
theorem Mirrors.map {α β : Type} {rest : List Token} {built : Except DuplicateChild α}
    {m : Reading Diagnostic α} (f : α → β) (h : Mirrors rest built (m s)) :
    Mirrors rest (built.map f) ((m >>= fun a => pure (f a)) s) := by
  have hbind := h.bind (f := fun a => .ok (f a)) fun a _ hs' => .result (f a) hs'
  cases built <;> exact hbind

/-- What follows the head of a node is read as it is built if its children are. -/
theorem takeBody_mirrors (hunlimited : settings.maxDepth = none) {name : String}
    {type : Option ArgType} {children : List Draft} {level : Nat} {rest : List Token}
    (hchildren : ∀ opening (s : TokenStream),
      s.Upcoming (Phrase.tokensAll (phraseAll (Draft.assembleAll children)) ++
        .closeScope :: rest) →
      Mirrors rest ((Draft.buildAll name [] children).map ([].reverse ++ ·))
        (takeChildren registry settings level name opening [] [] s))
    (span : Span)
    (hs : s.Upcoming ((Draft.assemble (.node name type children)).phrase.body ++ rest)) :
    Mirrors rest (Draft.build (.node name type children))
      (takeBody registry settings level ⟨⟨name, span⟩, type⟩ s) := by
  rw [takeBody_eq _ (by rw [hunlimited]; rfl)]
  cases children with
  | nil =>
    obtain ⟨_, s', hnext, hs'⟩ := hs
    have htake : Reading.next s = _ := hnext
    rw [Reading.bind_of_ok htake, Draft.build_node, Draft.buildAll]
    exact .result _ hs'
  | cons d ds =>
    have hscope : s.Upcoming (.openScope ::
        (Phrase.tokensAll (phraseAll (Draft.assembleAll (d :: ds))) ++ .closeScope :: rest)) := by
      simpa [Draft.assemble, Draft.assembleAll, phrase, Phrase.body] using hs
    obtain ⟨opening, s', hnext, hs'⟩ := hscope
    have htake : Reading.next s = _ := hnext
    -- no tree was read in front of the first child, so nothing is put in front of the children
    have hsame : (Draft.buildAll name [] (d :: ds)).map id = Draft.buildAll name [] (d :: ds) :=
      congrFun Except.map_id _
    rw [Reading.bind_of_ok htake, Draft.build_node, ← hsame]
    exact (hchildren opening s' hs').map _

/-- The names that were seen, in the forms in which the builder and the parser keep them. -/
abbrev SeenAlike (names : List String) (seen : Seen) : Prop :=
  ∀ name, seen.lookup name = none ↔ name ∉ names

/-- Before the first child nothing was seen in either form. -/
theorem SeenAlike.nil : SeenAlike [] [] := fun _ => by simp

/-- Noting the same name in both forms keeps them alike. -/
theorem SeenAlike.cons {names : List String} {seen : Seen} (h : SeenAlike names seen)
    (name : String) (span : Span) : SeenAlike (name :: names) ((name, span) :: seen) := by
  intro name'
  rw [lookup_cons_eq_none_iff, h name', List.mem_cons, not_or]

/-- The children of a scope are read as they are built. -/
theorem takeChildren_mirrors (hunlimited : settings.maxDepth = none) (ds : List Draft)
    (level : Nat) (parent : String) (opening : Span) {names : List String} {seen : Seen}
    (read : List Tree) {rest : List Token} {s : TokenStream} (hseen : SeenAlike names seen)
    (htypes : EveryTypeAll (ArgType.Rereadable registry) (Draft.assembleAll ds))
    (hs : s.Upcoming (Phrase.tokensAll (phraseAll (Draft.assembleAll ds)) ++
      .closeScope :: rest)) :
    Mirrors rest ((Draft.buildAll parent names ds).map (read.reverse ++ ·))
      (takeChildren registry settings level parent opening seen read s) := by
  rw [takeChildren_eq]
  match ds with
  | [] =>
    obtain ⟨span, q, hpeek, hq⟩ := TokenStream.peek_of_upcoming hs
    have hnext := TokenStream.next_of_peeked (TokenStream.peeked_of_peek hpeek)
    rw [takeChild_of_close hpeek, Draft.buildAll, Except.map, List.append_nil]
    exact .result _ (by rw [hnext]; exact ((TokenStream.upcoming_cons_of_next hnext).mp hq).2)
  | .node name type children :: ds =>
    obtain ⟨⟨htype, hinner⟩, hothers⟩ := htypes
    rw [Draft.assembleAll, phraseAll, Phrase.tokensAll, List.append_assoc] at hs
    have hname := hs
    rw [Phrase.tokens_eq, name_phrase] at hname
    obtain ⟨span, q, hpeek, -⟩ := TokenStream.peek_of_upcoming hname
    by_cases hmem : name ∈ names
    · obtain ⟨first, hfirst⟩ :=
        Option.ne_none_iff_exists'.mp (mt (hseen name).mp (not_not.mpr hmem))
      rw [takeChild_of_duplicate hpeek hfirst, Draft.buildAll_of_mem hmem]
      exact .duplicate q rfl
    · have hq := (TokenStream.upcoming_of_peek hpeek _).mp hs
      obtain ⟨span', s', hhead, hs'⟩ :=
        takeHead_of_upcoming settings (Draft.assemble (.node name type children)) htype hq
      rw [takeChild_of_new hpeek ((hseen name).mpr hmem), Reading.bind_of_ok hhead,
        Draft.map_buildAll_of_notMem hmem]
      refine Mirrors.bind (takeBody_mirrors hunlimited ?_ span' hs') fun t s'' hs'' => ?_
      · intro opening' s₁ hs₁
        exact takeChildren_mirrors hunlimited children (level + 1) name opening' [] .nil hinner hs₁
      · exact takeChildren_mirrors hunlimited ds level parent opening (t :: read)
          (hseen.cons name span) hothers hs''
termination_by sizeOf ds

/-- A tree whose root is a literal is read as it is built. -/
theorem takeRoot_mirrors (hunlimited : settings.maxDepth = none) {name : String}
    {children : List Draft} {rest : List Token}
    (htypes : EveryTypeAll (ArgType.Rereadable registry) (Draft.assembleAll children))
    (hs : s.Upcoming ((Draft.assemble (.node name none children)).phrase.tokens ++ rest)) :
    Mirrors rest (Draft.build (.node name none children)) (takeRoot registry settings s) := by
  obtain ⟨first, others, hbody, hfirst⟩ :=
    (Draft.assemble (.node name none children)).phrase.body_eq_cons
  rw [Phrase.tokens_eq, name_phrase, words_phrase] at hs
  obtain ⟨span, s', hname, hs'⟩ := takeName_of_upcoming .missingRootName hs
  have hnonword := hs'
  rw [hbody] at hnonword
  obtain ⟨span', q, hpeek, -⟩ := TokenStream.peek_of_upcoming hnonword
  have hq := (TokenStream.upcoming_of_peek hpeek _).mp hs'
  rw [takeRoot_of_name hname hpeek hfirst]
  refine takeBody_mirrors hunlimited (fun opening s₁ hs₁ => ?_) span hq
  exact takeChildren_mirrors hunlimited children 1 name opening [] .nil htypes hs₁

/-- Reading the tokens of a draft as a whole comes to building that draft. -/
theorem takeWhole_mirrors (hunlimited : settings.maxDepth = none) {name : String}
    {children : List Draft}
    (htypes : EveryTypeAll (ArgType.Rereadable registry) (Draft.assembleAll children))
    (hs : s.Lexes (Draft.assemble (.node name none children)).phrase.tokens) :
    Mirrors [] (Draft.build (.node name none children)) (takeWhole registry settings s) := by
  have hupcoming := (TokenStream.lexes_iff (Phrase.endOfInput_notMem_tokens _)).mp hs
  have hroot : Mirrors [.endOfInput] _ (takeRoot registry settings s) :=
    takeRoot_mirrors hunlimited htypes hupcoming
  have hsame : (Draft.build (.node name none children) >>= fun t => .ok t) =
      Draft.build (.node name none children) := bind_pure _
  rw [takeWhole_eq, ← hsame]
  refine hroot.bind fun t s' hs' => ?_
  obtain ⟨span, s'', hnext, hs''⟩ := hs'
  have htake : Reading.next s' = _ := hnext
  rw [Reading.bind_of_ok htake, if_pos rfl]
  exact .result t hs''

end Tree

namespace Draft

/-- A draft whose root is a literal and whose types can be read again is built as what it is
assembled to is parsed: into the same tree, or into an error about the same duplicate. -/
theorem build_agrees_with_parse (registry : Registry) (settings : Settings)
    (hunlimited : settings.maxDepth = none) (b : Draft) (hliteral : b.assemble.type = none)
    (htypes : b.assemble.EveryType (ArgType.Rereadable registry)) :
    let parsed := Tree.parse registry settings (.ofString b.assemble.source)
    (∀ t, parsed = .ok t ↔ b.build = .ok t) ∧
    ∀ d, b.build = .error d → ∃ e first, parsed = .error e ∧
      e.problem = .duplicateChild d first ∧ e.kind = .structural ∧ e.message = d.message := by
  intro parsed
  have hparsed : parsed = Tree.parse registry settings (.ofString b.assemble.source) := rfl
  have hmirrors : Tree.Mirrors [] b.build
      (Tree.takeWhole registry settings (.ofSource (.ofString b.assemble.source))) := by
    obtain ⟨name, type, children⟩ := b
    obtain rfl : type = none := hliteral
    exact Tree.takeWhole_mirrors hunlimited htypes.2 (Tree.lexes_source _)
  rw [Tree.parse_eq] at hparsed
  generalize Tree.takeWhole registry settings _ = read at hmirrors hparsed
  generalize b.build = built at hmirrors
  cases hmirrors with
  | result t _ => simp [hparsed]
  | @duplicate d e first s he =>
    refine ⟨by simp [hparsed], ?_⟩
    intro d' hd
    obtain rfl := Except.error.inj hd
    refine ⟨_, first, hparsed, he, ?_, ?_⟩
    · show e.problem.kind = _
      rw [he]
      rfl
    · show e.problem.message = _
      rw [he]
      rfl

/-- Of three duplicates the one below the first child is found, and not the one beside it. -/
theorem build_agrees_with_parse_nested :
    let registry : Registry := ⟨[.declared "my" (.ofList [("pair", .exactly 2)])]⟩
    let b : Draft := .node "r" none [
      .node "a" (some (.extension "my" "pair" ["x", ";"])) [
        .literal "x", .argument "x" .bool, .literal "x"],
      .literal "a",
      .node "b" none [.literal "y", .literal "y"]]
    b.build = .error ⟨"a", "x"⟩ ∧
      ∃ e, Tree.parse registry ⟨none, "minecraft", "nested"⟩ (.ofString b.assemble.source) =
        .error e ∧ e.message = "duplicate child node 'x' under 'a'" := by
  intro registry b
  have hbuild : b.build = .error ⟨"a", "x"⟩ := by
    simp [b, build, buildAll, literal, argument, Draft.name]
  have hpair : (ArgType.extension "my" "pair" ["x", ";"]).Rereadable registry :=
    (ArgType.rereadable_extension_iff (by simp [registry, Registry.ReadyMade, Resolver.isReadyMade])
      ⟨"my", "pair", by decide, by decide⟩ _).mpr ⟨_, rfl, .declared rfl rfl⟩
  have htypes : b.assemble.EveryType (ArgType.Rereadable registry) := by
    simp [b, assemble, assembleAll, Tree.EveryType, Tree.EveryTypeAll, literal, argument, hpair]
    trivial
  obtain ⟨-, hagrees⟩ :=
    build_agrees_with_parse registry ⟨none, "minecraft", "nested"⟩ rfl b rfl htypes
  obtain ⟨e, first, hparse, -, -, hmessage⟩ := hagrees _ hbuild
  exact ⟨hbuild, e, hparse, hmessage⟩

end Draft

end CommandTree
