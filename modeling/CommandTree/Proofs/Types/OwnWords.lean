import CommandTree.Proofs.Format.TypeWordsKept
import CommandTree.Proofs.Grammar.TypeFailures
import CommandTree.Proofs.Stream.Counting

/-!
# Types take their own words

How many words the parameters of a type take depends on the word that names the type and on how many
words there are, and on nothing else. `Registry.taken?` says how many. A type that is read has taken
just these, the payload of an extension type consists of them, and the words that are written for
the type are read as the same type again, to the last one.

A ready-made resolver never fails on its own account. What is wrong behind the name of a type is
wrong with the words there and not with the name.
-/

set_option autoImplicit false

namespace CommandTree

/-! ## Numbers of words -/

/-- How many of the words behind its name a built-in type takes. -/
def Builtin.taken : Builtin → (present : Nat) → Nat
  | bool, _ => 0
  | string, _ => 1
  | number _, present => min present 2

/-- How many words a rule takes. -/
def ParamRule.taken : ParamRule → (present : Nat) → Nat
  | none, _ => 0
  | exactly count, _ => count
  | optional, present => min present 1
  | trailing, present => present

/-- How many words a ready-made resolver takes for a key, if it knows the key. -/
def Resolver.taken? : Resolver → Key → (present : Nat) → Option Nat
  | declared _ types, key, present => (types.lookup key.name).map (·.taken present)
  | minecraft, key, present =>
    if key.name = Selection.entityName then some 1
    else if key.name = Selection.scoreHolderName then some (min present 1)
    else none
  | brigadier, key, present => (Builtin.ofName? key.name).map (·.taken present)
  | custom _, _, _ => none

/-- How many words are taken behind a word, if it names a type. -/
def Registry.taken? (registry : Registry) (defaultSpace word : String) (present : Nat) :
    Option Nat :=
  match Builtin.ofName? word with
  | some builtin => some (builtin.taken present)
  | none => do
    let key ← (Key.parse word defaultSpace).toOption
    let resolver ← registry.find? key
    resolver.taken? key present

/-! ## Readings -/

/-- Reading a mode takes one word. -/
theorem StringMode.takes_read : StringMode.read.Takes fun _ => 1 := by
  refine Reading.Takes.of_next fun s s' mode h => ?_
  obtain ⟨text, span, hnext, -⟩ := (StringMode.read_eq_ok_iff s s' mode).mp h
  exact ⟨text, span, hnext⟩

/-- Reading bounds takes at most two words. -/
theorem NumberKind.takes_readBounds (kind : NumberKind) :
    kind.readBounds.Takes fun present => min present 2 := by
  refine Reading.Takes.nextWord? (fun _ => 0) (fun present => min present 1) (.pure _)
    (fun lowerWord => ?_) rfl fun n => by omega
  refine Reading.Takes.ofExcept_bind fun lower _ => ?_
  refine Reading.Takes.nextWord? (fun _ => 0) (fun _ => 0) (.pure _) (fun upperWord => ?_) rfl
    fun n => by omega
  refine Reading.Takes.ofExcept_bind fun upper _ => ?_
  split
  · exact .fail _ _
  · exact .pure _

/-- Reading the parameters of a built-in type takes its own words. -/
theorem Builtin.takes_read (builtin : Builtin) : builtin.read.Takes builtin.taken := by
  cases builtin with
  | bool => exact .pure _
  | string => exact StringMode.takes_read.map _
  | number kind => exact kind.takes_readBounds.map _

namespace ParamRule

/-- Reading a fixed number of words takes as many. -/
theorem takes_readExactly (key : Key) (count left : Nat) (read : List String) :
    (readExactly key count left read).Takes fun _ => left := by
  induction left generalizing read with
  | zero => exact .pure _
  | succ left ih =>
    refine Reading.Takes.nextWord? (fun _ => left + 1) (fun _ => left) ?_ (fun word => ih _) rfl
      fun _ => rfl
    intro s s' words other payload _ _ h
    obtain ⟨token, q, -, hfail⟩ := Reading.bind_eq_ok h
    exact absurd hfail Reading.fail_ne_ok

/-- Reading all words takes as many as there are. -/
theorem takes_readTrailing (read : List String) :
    @Reading.Takes Diagnostic _ (readTrailing read) fun present => present := by
  intro s s' words other payload hother hs h
  induction words generalizing read s with
  | nil =>
    obtain ⟨q, hword, hq⟩ := TokenStream.nextWord?_of_other hs hother
    rw [readTrailing_of_none hword] at h
    obtain ⟨-, rfl⟩ := Prod.mk.inj h
    exact ⟨Nat.le_refl _, (TokenStream.sequence_of_nextWord?_none hword).1.symm, hq⟩
  | cons word words ih =>
    obtain ⟨span, q, hword, hq⟩ := TokenStream.nextWord?_of_word hs
    rw [readTrailing_of_some hword] at h
    obtain ⟨-, hsequence, hleft⟩ := ih _ hq h
    refine ⟨Nat.le_refl _, ?_, ?_⟩
    · rw [hsequence, TokenStream.sequence_of_nextWord? hword, List.length_cons,
        List.drop_succ_cons]
    · rwa [List.length_cons, List.drop_succ_cons]

/-- Taking the words of a rule takes its own words. -/
theorem takes_consume (key : Key) (rule : ParamRule) : (rule.consume key).Takes rule.taken := by
  cases rule with
  | none => exact .pure _
  | exactly count => exact takes_readExactly key count count []
  | optional =>
    refine Reading.Takes.nextWord? (fun _ => 0) (fun _ => 0) (.pure _) (fun _ => .pure _) rfl ?_
    intro n
    simp only [taken]
    omega
  | trailing => exact takes_readTrailing []

end ParamRule

namespace Resolver

/-- Reading an entity takes one word. -/
theorem takes_readEntity (key : Key) : (readEntity key).Takes fun _ => 1 := by
  refine Reading.Takes.of_next fun s s' type h => ?_
  obtain ⟨text, span, hnext, -⟩ := (readEntity_eq_ok_iff key s s' type).mp h
  exact ⟨text, span, hnext⟩

/-- Reading a score holder takes at most one word. -/
theorem takes_readScoreHolder (key : Key) :
    (readScoreHolder key).Takes fun present => min present 1 := by
  refine Reading.Takes.nextWord? (fun _ => 0) (fun _ => 0) (.pure _) (fun word => ?_) rfl
    fun n => by omega
  dsimp only
  split
  · exact .pure _
  · exact .fail _ _

/-- A ready-made resolver takes as many words as its key says. -/
theorem Reads.takes {resolver : Resolver} {key : Key} {m : Reading Diagnostic ArgType}
    (h : resolver.Reads key m) :
    ∃ count, m.Takes count ∧ ∀ present, resolver.taken? key present = some (count present) := by
  cases h with
  | @declared space types key rule hrule =>
    exact ⟨rule.taken, (ParamRule.takes_consume key rule).map _, fun _ => by simp [taken?, hrule]⟩
  | entity hentity => exact ⟨_, takes_readEntity key, fun _ => by simp [taken?, hentity]⟩
  | scoreHolder hholder =>
    have hother : Selection.scoreHolderName ≠ Selection.entityName := by decide
    exact ⟨_, takes_readScoreHolder key, fun _ => by simp [taken?, hholder, hother]⟩
  | @brigadier key builtin hbuiltin =>
    exact ⟨builtin.taken, builtin.takes_read, fun _ => by simp [taken?, hbuiltin]⟩

end Resolver

namespace Registry

/-- What becomes of a word that stands for a type: a built-in type is read, a resolver is asked, or
the word is refused. -/
inductive Resolution (registry : Registry) (defaultSpace : String) (word : Located String) :
    Reading Diagnostic ArgType → Prop where
  /-- The word is the name of a built-in type. -/
  | builtin {builtin : Builtin} : Builtin.ofName? word.value = some builtin →
    Resolution registry defaultSpace word builtin.read
  /-- The first resolver that claims the key of the word reads its parameters. -/
  | reads {key : Key} {resolver : Resolver} {m : Reading Diagnostic ArgType} :
    Builtin.ofName? word.value = none → Key.parse word.value defaultSpace = .ok key →
      registry.find? key = some resolver → resolver.Reads key m →
      Resolution registry defaultSpace word m
  /-- The word is not a key. -/
  | invalid {e : KeyError} : Builtin.ofName? word.value = none →
    Key.parse word.value defaultSpace = .error e →
      Resolution registry defaultSpace word
        (Reading.fail (.atSpan (.invalidKey word.value e) word.span))
  /-- No resolver claims the key of the word. -/
  | unknown {key : Key} : Builtin.ofName? word.value = none →
    Key.parse word.value defaultSpace = .ok key → registry.find? key = none →
      Resolution registry defaultSpace word
        (Reading.fail (.atSpan (.unknownType key) word.span))

variable {registry : Registry} {defaultSpace : String} {word : Located String}

/-- A word that stands for a type is resolved in one of three ways. -/
theorem resolution (hready : registry.ReadyMade) (defaultSpace : String) (word : Located String) :
    registry.Resolution defaultSpace word (registry.resolve defaultSpace word) := by
  unfold resolve
  cases hname : Builtin.ofName? word.value with
  | some builtin => exact .builtin hname
  | none =>
    cases hkey : Key.parse word.value defaultSpace with
    | error e => exact .invalid hname hkey
    | ok key =>
      cases hfind : registry.find? key with
      | none =>
        simp only [hfind]
        exact .unknown hname hkey hfind
      | some resolver =>
        have hmade := hready resolver (List.mem_of_find?_eq_some hfind)
        have hclaims := List.find?_some hfind
        obtain ⟨m, hreads, hread⟩ := Resolver.exists_reads hmade hclaims
        simp only [hfind]
        rw [hread, mapError_diagnose]
        exact .reads hname hkey hfind hreads

/-- Behind the name of a type its own number of words is taken. -/
theorem takes_resolve (hready : registry.ReadyMade) {s s' : TokenStream} {words : List String}
    {other : Token} {type : ArgType} (hother : other.isWord = false)
    (hs : s.Upcoming (words.map .word ++ [other]))
    (h : registry.resolve defaultSpace word s = (.ok type, s')) :
    ∃ k, registry.taken? defaultSpace word.value words.length = some k ∧ k ≤ words.length ∧
      s'.sequence = s.sequence.drop k ∧ s'.Upcoming ((words.drop k).map .word ++ [other]) := by
  have hresolution := registry.resolution hready defaultSpace word
  generalize registry.resolve defaultSpace word = m at h hresolution
  cases hresolution with
  | @builtin builtin hname =>
    exact ⟨builtin.taken words.length, by simp [taken?, hname], builtin.takes_read hother hs h⟩
  | reads hname hkey hfind hreads =>
    obtain ⟨count, htakes, hcount⟩ := hreads.takes
    refine ⟨count words.length, ?_, htakes hother hs h⟩
    simp [taken?, hname, hkey, Except.toOption, hfind, hcount]
  | invalid => exact absurd h Reading.fail_ne_ok
  | unknown => exact absurd h Reading.fail_ne_ok

end Registry

/-! ## Failures -/

/-- Whether a problem is about the name of a type, and not about the words behind it. -/
def Problem.concernsName : Problem → Bool
  | invalidKey .. | unknownType _ | unresolved .. => true
  | _ => false

/-- A problem with characters is not about the name of a type. -/
theorem Problem.concernsName_of_lexical {problem : Problem} (h : problem.kind = .lexical) :
    problem.concernsName = false := by
  cases problem <;> first | rfl | contradiction

namespace Reading

variable {α β : Type}

/-- Where the reading fails, the name of a type is not to blame. -/
def SparesName (m : Reading Diagnostic α) : Prop :=
  ∀ s d s', m s = (.error d, s') → d.problem.concernsName = false

namespace SparesName

/-- Returning does not fail. -/
theorem pure (a : α) : (Pure.pure a : Reading Diagnostic α).SparesName := by
  intro s d s' h
  exact absurd h pure_ne_error

/-- Failing for another reason spares the name of the type. -/
theorem fail {problem : Problem} {span : Span} (h : problem.concernsName = false) :
    (Reading.fail (.atSpan problem span) : Reading Diagnostic α).SparesName := by
  intro s d s' hd
  obtain ⟨rfl, -⟩ := fail_eq_error hd
  exact h

/-- Readings that spare the name do so in sequence. -/
theorem bind {m : Reading Diagnostic α} {f : α → Reading Diagnostic β} (hm : m.SparesName)
    (hf : ∀ a, (f a).SparesName) : (m >>= f).SparesName := by
  intro s d s' h
  obtain hd | ⟨a, q, -, hd⟩ := bind_eq_error h
  · exact hm s d s' hd
  · exact hf a q d s' hd

/-- Taking a token fails for its characters only. -/
theorem next : Reading.next.SparesName := fun _ _ _ h =>
  Problem.concernsName_of_lexical (TokenStream.kind_of_next h)

/-- Looking at a token fails for its characters only. -/
theorem peek : Reading.peek.SparesName := fun _ _ _ h =>
  Problem.concernsName_of_lexical (TokenStream.kind_of_peek h)

/-- Taking a word fails for its characters only. -/
theorem nextWord? : Reading.nextWord?.SparesName := fun _ _ _ h =>
  Problem.concernsName_of_lexical (TokenStream.kind_of_nextWord? h)

end SparesName

end Reading

open Reading (SparesName)

/-- A failure to read a mode is about the word behind the name. -/
theorem StringMode.sparesName_read : StringMode.read.SparesName := by
  refine SparesName.next.bind fun token => ?_
  split
  · exact .fail rfl
  · split
    · exact .pure _
    · exact .fail rfl

/-- A failure to judge a bound is about the bound. -/
theorem NumberKind.sparesName_bound (kind : NumberKind) (word : Located String) :
    (Reading.ofExcept (kind.bound word)).SparesName := by
  intro s d s' h
  have hd : kind.bound word = .error d := (Prod.mk.inj h).1
  unfold bound at hd
  repeat' split at hd
  all_goals first
    | contradiction
    | rw [← Except.error.inj hd]; rfl

/-- A failure to read bounds is about the words behind the name. -/
theorem NumberKind.sparesName_readBounds (kind : NumberKind) : kind.readBounds.SparesName := by
  refine SparesName.nextWord?.bind fun lowerWord => ?_
  cases lowerWord with
  | none => exact .pure _
  | some lowerWord =>
    refine (kind.sparesName_bound lowerWord).bind fun lower => ?_
    refine SparesName.nextWord?.bind fun upperWord => ?_
    cases upperWord with
    | none => exact .pure _
    | some upperWord =>
      refine (kind.sparesName_bound upperWord).bind fun upper => ?_
      split
      · exact .fail rfl
      · exact .pure _

/-- A failure to read the parameters of a built-in type is about the words behind the name. -/
theorem Builtin.sparesName_read (builtin : Builtin) : builtin.read.SparesName := by
  cases builtin with
  | bool => exact .pure _
  | string => exact StringMode.sparesName_read.bind fun _ => .pure _
  | number kind => exact kind.sparesName_readBounds.bind fun _ => .pure _

namespace ParamRule

/-- A failure to read a fixed number of words is about the words behind the name. -/
theorem sparesName_readExactly (key : Key) (count left : Nat) (read : List String) :
    (readExactly key count left read).SparesName := by
  induction left generalizing read with
  | zero => exact .pure _
  | succ left ih =>
    refine SparesName.nextWord?.bind fun word => ?_
    cases word with
    | some word => exact ih _
    | none => exact SparesName.peek.bind fun _ => .fail rfl

/-- A failure to take the words of a rule is about the words behind the name. -/
theorem sparesName_consume (key : Key) (rule : ParamRule) : (rule.consume key).SparesName := by
  cases rule with
  | none => exact .pure _
  | exactly count => exact sparesName_readExactly key count count []
  | optional => exact SparesName.nextWord?.bind fun _ => .pure _
  | trailing => exact fun s d s' h => Problem.concernsName_of_lexical (kind_of_readTrailing h)

end ParamRule

/-- No ready-made resolver blames the name that it was asked for. -/
theorem Resolver.Reads.sparesName {resolver : Resolver} {key : Key}
    {m : Reading Diagnostic ArgType} (h : resolver.Reads key m) : m.SparesName := by
  cases h with
  | declared => exact (ParamRule.sparesName_consume key _).bind fun _ => .pure _
  | entity =>
    refine SparesName.next.bind fun token => ?_
    split
    · exact .fail rfl
    · split
      · exact .pure _
      · exact .fail rfl
  | scoreHolder =>
    refine SparesName.nextWord?.bind fun word => ?_
    cases word with
    | none => exact .pure _
    | some word =>
      dsimp only
      split
      · exact .pure _
      · exact .fail rfl
  | brigadier => exact Builtin.sparesName_read _

/-! ## Types and their words -/

/-- The words of a type start with its name. -/
theorem ArgType.words_ne_nil (type : ArgType) : type.words ≠ [] := by
  cases type <;> exact List.cons_ne_nil _ _

namespace Registry

variable {registry : Registry} {defaultSpace : String} {word : Located String} {s s' : TokenStream}

/-- No ready-made resolver fails on its own account. -/
theorem ne_unresolved_of_resolve (hready : registry.ReadyMade) {d : Diagnostic}
    (h : registry.resolve defaultSpace word s = (.error d, s')) (key : Key)
    (resolver reason : String) : d.problem ≠ .unresolved key resolver reason := by
  have hspared : d.problem.concernsName = false → d.problem ≠ .unresolved key resolver reason := by
    intro hname hproblem
    rw [hproblem] at hname
    contradiction
  have hresolution := registry.resolution hready defaultSpace word
  generalize registry.resolve defaultSpace word = m at h hresolution
  cases hresolution with
  | @builtin builtin => exact hspared (builtin.sparesName_read s d s' h)
  | reads _ _ _ hreads => exact hspared (hreads.sparesName s d s' h)
  | invalid =>
    obtain ⟨rfl, -⟩ := Reading.fail_eq_error h
    exact nofun
  | unknown =>
    obtain ⟨rfl, -⟩ := Reading.fail_eq_error h
    exact nofun

/-- The words that declared a type are those that were taken. -/
theorem types_take_of_resolve (hready : registry.ReadyMade) {words : List String} {other : Token}
    {type : ArgType} {k : Nat} (hother : other.isWord = false)
    (hs : s.Upcoming (words.map .word ++ [other]))
    (h : registry.resolve defaultSpace word s = (.ok type, s'))
    (hleft : s'.Upcoming ((words.drop k).map .word ++ [other])) :
    registry.Types defaultSpace (word.value :: words.take k) (some type) := by
  obtain ⟨taken, htypes, hconsumes⟩ := (registry.accepts_resolve hready defaultSpace word).sound h
  have hall : s.Upcoming ((taken ++ words.drop k).map .word ++ [other]) := by
    rw [List.map_append, List.append_assoc]
    exact (hconsumes _).mpr hleft
  have hwords : taken ++ words.drop k = words := hall.words_unique hs hother hother
  have hsplit : taken ++ words.drop k = words.take k ++ words.drop k := by
    rw [hwords, List.take_append_drop]
  rwa [List.append_cancel_right hsplit] at htypes

/-- The payload of an extension type consists of the words behind its name. -/
theorem payload_of_types {word : String} {words : List String} {space name : String}
    {payload : List String}
    (h : registry.Types defaultSpace (word :: words) (some (.extension space name payload))) :
    payload = words := by
  generalize htype : ArgType.extension space name payload = type at h
  generalize hwords : word :: words = all at h
  cases h with
  | builtin hdeclares => cases hdeclares <;> contradiction
  | extension _ _ _ hdeclares =>
    subst htype
    obtain ⟨-, rfl⟩ := List.cons.inj hwords
    exact hdeclares.extension.2.2.symm

/-- The words that are written for a type are read as the type, and none of them is left. -/
theorem exists_resolve_words (hready : registry.ReadyMade) {words : List String} {type : ArgType}
    (h : registry.Types defaultSpace words (some type)) :
    ∃ first params, type.words = first :: params ∧
      ∀ (defaultSpace' : String) (span : Span) (q : TokenStream) (other : Token),
        other.isWord = false → q.Upcoming (params.map .word ++ [other]) →
        ∃ q', registry.resolve defaultSpace' ⟨first, span⟩ q = (.ok type, q') ∧
          q'.sequence = q.sequence.drop params.length ∧ q'.Upcoming [other] := by
  obtain ⟨first, params, hwords⟩ := List.exists_cons_of_ne_nil type.words_ne_nil
  refine ⟨first, params, hwords, fun defaultSpace' span q other hother hq => ?_⟩
  have htypes : registry.Types defaultSpace' (first :: params) (some type) := hwords ▸ h.words
  obtain ⟨q', hread, hq'⟩ :=
    (registry.accepts_resolve hready defaultSpace' ⟨first, span⟩).complete htypes hother hq
  obtain ⟨k, -, hle, hsequence, hleft⟩ := takes_resolve hready hother hq hread
  -- a word that was left would be upcoming where the other token is
  have hend : q'.Upcoming (([] : List String).map .word ++ [other]) := hq'
  have hnone : params.drop k = [] := hleft.words_unique hend hother hother
  have hlength := List.drop_eq_nil_iff.mp hnone
  obtain rfl : k = params.length := by omega
  exact ⟨q', hread, hsequence, hq'⟩

/-- A type that is read takes exactly its own number of the words in front of a token that is no
word, and an extension type has these words for its payload. No resolver fails on its own account.
The words that are written for a type are read as the type again, with any default namespace and in
front of any token that is no word, and all of them are taken. -/
theorem resolve_takes_own_words (hready : registry.ReadyMade) (defaultSpace : String)
    (word : Located String) :
    (∀ (s s' : TokenStream) (words : List String) (other : Token) (type : ArgType),
      other.isWord = false → s.Upcoming (words.map .word ++ [other]) →
      registry.resolve defaultSpace word s = (.ok type, s') →
      ∃ k, registry.taken? defaultSpace word.value words.length = some k ∧ k ≤ words.length ∧
        s'.sequence = s.sequence.drop k ∧ s'.Upcoming ((words.drop k).map .word ++ [other]) ∧
        ∀ space name payload, type = .extension space name payload → payload = words.take k) ∧
    (∀ (s s' : TokenStream) (d : Diagnostic),
      registry.resolve defaultSpace word s = (.error d, s') →
      ∀ key resolver reason, d.problem ≠ .unresolved key resolver reason) ∧
    ∀ (s s' : TokenStream) (type : ArgType),
      registry.resolve defaultSpace word s = (.ok type, s') →
      ∃ first params, type.words = first :: params ∧
        ∀ (defaultSpace' : String) (span : Span) (q : TokenStream) (other : Token),
          other.isWord = false → q.Upcoming (params.map .word ++ [other]) →
          ∃ q', registry.resolve defaultSpace' ⟨first, span⟩ q = (.ok type, q') ∧
            q'.sequence = q.sequence.drop params.length ∧ q'.Upcoming [other] := by
  refine ⟨?_, ?_, ?_⟩
  · intro s s' words other type hother hs h
    obtain ⟨k, htaken, hle, hsequence, hleft⟩ := takes_resolve hready hother hs h
    refine ⟨k, htaken, hle, hsequence, hleft, fun space name payload htype => ?_⟩
    have htypes := types_take_of_resolve hready hother hs h hleft
    rw [htype] at htypes
    exact payload_of_types htypes
  · intro s s' d h
    exact ne_unresolved_of_resolve hready h
  · intro s s' type h
    obtain ⟨words, htypes, -⟩ := (registry.accepts_resolve hready defaultSpace word).sound h
    exact exists_resolve_words hready htypes

/-- A declared type with two parameters in front of three words: two are taken, one is left. -/
theorem resolve_takes_own_words_pair :
    let registry : Registry := ⟨[.brigadier, .declared "my" (.ofList [("pair", .exactly 2)])]⟩
    let s := TokenStream.ofSource (.ofString "a \"b c\" d;")
    ∃ type s', registry.resolve "my" ⟨"pair", ⟨0, 0, 1⟩⟩ s = (.ok type, s') ∧
      type = .extension "my" "pair" ["a", "b c"] ∧ s'.sequence = s.sequence.drop 2 ∧
      s'.Upcoming [.word "d", .terminator] ∧
      ∀ (span : Span) (q : TokenStream), q.Upcoming [.word "a", .word "b c", .closeScope] →
        ∃ q', registry.resolve "other" ⟨"my:pair", span⟩ q = (.ok type, q') ∧
          q'.sequence = q.sequence.drop 2 ∧ q'.Upcoming [.closeScope] := by
  intro registry s
  have hready : registry.ReadyMade := by simp [registry, Registry.ReadyMade, Resolver.isReadyMade]
  have hlexes : s.Lexes [.word "a", .word "b c", .word "d", .terminator] :=
    .of_isOk (by decide +kernel) (by decide +kernel)
  have hs : s.Upcoming ((["a", "b c", "d"].map .word) ++ [.terminator]) :=
    TokenStream.Upcoming.of_append ((TokenStream.lexes_iff (by decide)).mp hlexes)
  have htype : (registry.resolve "my" ⟨"pair", ⟨0, 0, 1⟩⟩ s).1.toOption =
      some (.extension "my" "pair" ["a", "b c"]) := by decide +kernel
  obtain ⟨htakes, -, hwords⟩ := resolve_takes_own_words hready "my" ⟨"pair", ⟨0, 0, 1⟩⟩
  rcases hread : registry.resolve "my" ⟨"pair", ⟨0, 0, 1⟩⟩ s with ⟨d | type, s'⟩
  · rw [hread] at htype
    contradiction
  · rw [hread] at htype
    obtain rfl := Option.some.inj htype
    obtain ⟨k, htaken, -, hsequence, hleft, -⟩ := htakes s s' _ .terminator _ rfl hs hread
    have hcount : registry.taken? "my" "pair" 3 = some 2 := by decide +kernel
    obtain rfl : k = 2 := Option.some.inj (htaken.symm.trans hcount)
    obtain ⟨first, params, heq, hagain⟩ := hwords s s' _ hread
    obtain ⟨rfl, rfl⟩ := List.cons.inj heq
    exact ⟨_, s', rfl, rfl, hsequence, hleft, fun span q hq => hagain "other" span q _ rfl hq⟩

end Registry

end CommandTree
