import CommandTree.Proofs.Grammar.Parsing
import CommandTree.Proofs.Parsing.Recursion
import CommandTree.Proofs.Stream.EndOfInput
import CommandTree.Proofs.Trees.Building
import CommandTree.Tree.Alias
import CommandTree.Tree.Encoding

/-!
# What every tree has

A resolver may take any tokens, braces and semicolons among them, may fail, and may return any type.
The shape of a parsed tree does not depend on it. The root is a literal because it is refused when a
word follows its name, before any resolver is asked. Two siblings cannot share a name because the
name of a child is compared, while it is still the next token, with the names that came before; what
a resolver does afterwards changes neither that name nor the list. A level is compared with the
limit when the body of a node is reached. And the end of input is taken last, so everything was
read.

The other ways to come by a tree keep the names of siblings apart as well: building a draft, reading
JSON, renaming the root, and expanding the aliases of a command.
-/

set_option autoImplicit false

namespace CommandTree

namespace Tree

variable {registry : Registry} {settings : Settings}

/-! ## Bodies and scopes -/

/-- A list of siblings that may stand in a scope in which certain names were seen. -/
structure SiblingsBehind (settings : Settings) (level : Nat) (seen : Seen) (ts : List Tree) :
    Prop where
  /-- The names differ from each other. -/
  nodup : (ts.map name).Nodup
  /-- They differ from those that were seen. -/
  fresh : ∀ t ∈ ts, seen.lookup t.name = none
  /-- The same holds in every scope below. -/
  distinct : DistinctAll ts
  /-- The settings allow the levels that the siblings take. -/
  covers : settings.Covers level (depthAll ts)

/-- No siblings may stand in any scope. -/
theorem SiblingsBehind.nil {level : Nat} (seen : Seen) (hlevel : settings.Covers level 0) :
    SiblingsBehind settings level seen [] :=
  ⟨List.nodup_nil, nofun, trivial, hlevel⟩

/-- A sibling of a new name, which was noted before the others were read. -/
theorem SiblingsBehind.cons {level : Nat} {seen : Seen} {t : Tree} {ts : List Tree} {span : Span}
    (h : SiblingsBehind settings level ((t.name, span) :: seen) ts)
    (hfresh : seen.lookup t.name = none) (hdistinct : t.Distinct)
    (hcovers : settings.Covers level t.depth) : SiblingsBehind settings level seen (t :: ts) := by
  obtain ⟨hnodup, hseen⟩ := (fresh_cons_iff name t ts span seen).mpr ⟨hfresh, h.nodup, h.fresh⟩
  exact ⟨hnodup, hseen, ⟨hdistinct, h.distinct⟩, (Settings.covers_max _ _).mpr ⟨hcovers, h.covers⟩⟩

mutual

/-- A body that is taken gives a tree with its head, with distinct siblings and within the limit. -/
theorem shape_of_takeBody {level : Nat} {head : Head} {s s' : TokenStream} {t : Tree}
    (h : takeBody registry settings level head s = (.ok t, s')) :
    s.Reaches s' ∧ t.name = head.name.value ∧ t.type = head.type ∧ t.Distinct ∧
      settings.Covers level t.depth := by
  cases hlevel : settings.maxDepth.filter (· < level) with
  | some limit =>
    rw [takeBody_of_limit head hlevel] at h
    exact absurd h Reading.fail_ne_ok
  | none =>
    have hcovers := Settings.filter_eq_none_iff.mp hlevel
    rw [takeBody_eq head hlevel] at h
    obtain ⟨⟨value, span⟩, q, hnext, h⟩ := Reading.bind_eq_ok h
    have hreach := TokenStream.Reaches.next_of_eq hnext
    cases value with
    | terminator =>
      obtain ⟨rfl, rfl⟩ := Reading.pure_eq_ok h
      exact ⟨hreach, rfl, rfl, ⟨List.nodup_nil, trivial⟩, hcovers⟩
    | openScope =>
      have hlt := TokenStream.size_next_lt hnext (by simp)
      obtain ⟨children, q', hchildren, h⟩ := Reading.bind_eq_ok h
      obtain ⟨rfl, rfl⟩ := Reading.pure_eq_ok h
      obtain ⟨us, hus, hinner, hsiblings⟩ :=
        shape_of_takeChildren ((Settings.covers_succ 0).mp hcovers) hchildren
      obtain rfl : children = us := hus
      exact ⟨hreach.trans hinner, rfl, rfl, ⟨hsiblings.nodup, hsiblings.distinct⟩,
        (Settings.covers_succ _).mpr hsiblings.covers⟩
    | _ => exact absurd h Reading.fail_ne_ok
termination_by s.size
decreasing_by exact hlt

/-- The children that are taken have new names, distinct siblings and levels within the limit. -/
theorem shape_of_takeChildren {level : Nat} {parent : String} {opening : Span} {seen : Seen}
    {read ts : List Tree} {s s' : TokenStream} (hlevel : settings.Covers (level + 1) 0)
    (h : takeChildren registry settings level parent opening seen read s = (.ok ts, s')) :
    ∃ us, ts = read.reverse ++ us ∧ s.Reaches s' ∧
      SiblingsBehind settings (level + 1) seen us := by
  rw [takeChildren_eq] at h
  obtain ⟨token, q, hpeek, h⟩ := Reading.bind_eq_ok h
  have hlook := TokenStream.Reaches.peek_of_eq hpeek
  have hle := TokenStream.size_le_of_reaches hlook
  split at h
  · obtain ⟨_, q', hnext, h⟩ := Reading.bind_eq_ok h
    obtain ⟨rfl, rfl⟩ := Reading.pure_eq_ok h
    exact ⟨[], (List.append_nil _).symm, hlook.trans (.next_of_eq hnext), .nil seen hlevel⟩
  · cases hproblem : childProblem parent opening seen token.value with
    | some problem =>
      rw [hproblem] at h
      exact absurd h Reading.fail_ne_ok
    | none =>
      rw [hproblem] at h
      obtain ⟨head, s₁, hhead, h⟩ := Reading.bind_eq_ok h
      obtain ⟨child, s₂, hbody, h⟩ := Reading.bind_eq_ok h
      have hlt₁ := Nat.lt_of_lt_of_le (size_takeHead_lt hhead) hle
      have hlt₂ := Nat.lt_trans (size_takeBody_lt hbody) hlt₁
      obtain ⟨q', hnext, hreach⟩ := next_of_takeHead hhead
      obtain ⟨hreach₁, hname, -, hdistinct, hcovers⟩ := shape_of_takeBody hbody
      obtain ⟨us, rfl, hreach₂, hsiblings⟩ := shape_of_takeChildren hlevel h
      -- the name of the child is the token that was compared with those before it
      have htoken : token.value = .word child.name := by
        rw [eq_name_of_takeHead hpeek hhead, hname]
      rw [htoken, childProblem_word_eq_none_iff] at hproblem
      rw [noteChild, htoken] at hsiblings
      refine ⟨child :: us, by simp, ?_, hsiblings.cons hproblem hdistinct hcovers⟩
      exact hlook.trans ((TokenStream.Reaches.next_of_eq hnext).trans
        (hreach.trans (hreach₁.trans hreach₂)))
termination_by s.size
decreasing_by
  · exact hlt₁
  · exact hlt₂

end

/-! ## Whole files -/

/-- A tree that is taken is a literal with distinct siblings within the limit, and all input was
taken. -/
theorem shape_of_takeWhole {s s' : TokenStream} {t : Tree} (hs : s.Settled)
    (h : takeWhole registry settings s = (.ok t, s')) :
    t.isLiteral = true ∧ t.Distinct ∧ settings.Covers 1 t.depth ∧ s'.AtEnd := by
  rw [takeWhole_eq] at h
  obtain ⟨root, q, hroot, h⟩ := Reading.bind_eq_ok h
  obtain ⟨token, q', hnext, h⟩ := Reading.bind_eq_ok h
  split at h
  · rename_i hend
    obtain ⟨rfl, rfl⟩ := Reading.pure_eq_ok h
    rw [takeRoot_eq] at hroot
    obtain ⟨name, s₁, hname, hroot⟩ := Reading.bind_eq_ok hroot
    obtain ⟨next, s₂, hpeek, hroot⟩ := Reading.bind_eq_ok hroot
    split at hroot
    · exact absurd hroot Reading.fail_ne_ok
    · obtain ⟨hreach, -, htype, hdistinct, hcovers⟩ := shape_of_takeBody hroot
      have hstart := TokenStream.Reaches.next_of_eq (next_of_takeName hname)
      have hreach := hstart.trans ((TokenStream.Reaches.peek_of_eq hpeek).trans hreach)
      exact ⟨by rw [isLiteral, htype]; rfl, hdistinct, hcovers,
        (hs.of_reaches hreach).atEnd_of_next hnext hend⟩
  · exact absurd h Reading.fail_ne_ok

/-! ## Other trees -/

/-- A tree that is read from JSON has distinct siblings, since it was built. -/
theorem distinct_of_ofJson {value : Json} {t : Tree} (h : ofJson value = .ok t) : t.Distinct := by
  unfold ofJson at h
  split at h
  · simp at h
  · split at h
    · simp at h
    · rename_i d t' hbuild
      rw [Except.ok.injEq] at h
      exact h ▸ (Draft.distinct_of_build hbuild).1

/-- A renamed tree has distinct siblings if it had them. -/
theorem Distinct.renamed {t : Tree} (h : t.Distinct) (name : String) :
    (t.renamed name).Distinct := by
  obtain ⟨name', type, children⟩ := t
  exact h

/-- Copies under aliases have distinct siblings if the command has them. -/
theorem Distinct.of_mem_expand {t u : Tree} {label : String} {aliases : List String}
    {fallback : Option String} (h : t.Distinct)
    (hu : u ∈ Alias.expand t label aliases fallback) : u.Distinct := by
  obtain ⟨name, -, rfl⟩ := List.mem_map.mp hu
  exact h.renamed name

/-! ## All trees -/

/-- Whatever the resolvers of a registry are, the root of a parsed tree is a literal, its siblings
have different names everywhere, its levels are within the limit, and the source was read to its
end. Siblings also have different names in trees that are built or read from JSON, and still have
them in a tree that is renamed and in the trees that stand for the aliases of a command. -/
theorem invariants_of_every_tree :
    (∀ (registry : Registry) (settings : Settings) (source : Source) (t : Tree),
      parse registry settings source = .ok t →
        t.isLiteral = true ∧ t.Distinct ∧
          (∀ limit, settings.maxDepth = some limit → t.depth ≤ limit) ∧
          ∃ s, readWhole registry settings (.ofSource source) = .ok (t, s) ∧ s.AtEnd) ∧
    (∀ (d : Draft) (t : Tree), d.build = .ok t → t.Distinct) ∧
    (∀ (value : Json) (t : Tree), ofJson value = .ok t → t.Distinct) ∧
    (∀ (t : Tree) (name : String), t.Distinct → (t.renamed name).Distinct) ∧
    (∀ (t u : Tree) (label : String) (aliases : List String) (fallback : Option String),
      t.Distinct → u ∈ Alias.expand t label aliases fallback → u.Distinct) := by
  refine ⟨fun registry settings source t h => ?_, fun d t h => (Draft.distinct_of_build h).1,
    fun value t h => distinct_of_ofJson h, fun t name h => h.renamed name,
    fun t u label aliases fallback h hu => h.of_mem_expand hu⟩
  obtain ⟨s, hread⟩ := parse_eq_ok_iff_readWhole.mp h
  have htake : takeWhole registry settings (.ofSource source) = (.ok t, s) := by
    rw [takeWhole, hread]
  obtain ⟨hliteral, hdistinct, hcovers, hend⟩ :=
    shape_of_takeWhole (TokenStream.settled_ofSource source) htake
  refine ⟨hliteral, hdistinct, fun limit hlimit => ?_, s, hread, hend⟩
  have hcovered := hcovers limit hlimit
  omega

/-- A resolver that claims every key and takes two tokens, whatever they are. -/
def twoTokens : CustomResolver :=
  .ofReading "two tokens" (fun _ => true)
    (fun _ => Reading.mapError .diagnosed do
      let _ ← Reading.next
      let _ ← Reading.next
      pure .bool)
    (fun _ => .mapError _ (Reading.Forward.next.bind fun _ =>
      Reading.Forward.next.bind fun _ => .pure _))

/-- A parsed text in which a resolver takes a closing brace and a semicolon, and trees that come
from a draft, from JSON and from an alias. -/
theorem invariants_with_brace_taken :
    let source := Source.ofString "r \x7b a my:key \x7d ; ; b my:key \x7b \x7d ; \x7d"
    let draft := Draft.node "r" none [.literal "a", .argument "b" .bool]
    ∃ t built decoded, parse ⟨[.custom twoTokens]⟩ .standard source = .ok t ∧
      draft.build = .ok built ∧ ofJson t.toJson = .ok decoded ∧
      t.isLiteral = true ∧ t.Distinct ∧ t.depth ≤ 128 ∧ built.Distinct ∧ decoded.Distinct ∧
      (t.renamed "s").Distinct ∧ (∀ u ∈ Alias.expand t "s" ["x"] (some "y"), u.Distinct) := by
  intro source draft
  have hparses : ((parse ⟨[.custom twoTokens]⟩ .standard source).toOption.bind
      fun t => (ofJson t.toJson).toOption).isSome = true := by decide +kernel
  cases hparse : parse ⟨[.custom twoTokens]⟩ .standard source with
  | error d =>
    rw [hparse] at hparses
    contradiction
  | ok t =>
    rw [hparse] at hparses
    cases hjson : ofJson t.toJson with
    | error e => simp [Except.toOption, hjson] at hparses
    | ok decoded =>
      obtain ⟨hparsed, hbuilt, hdecoded, hrenamed, haliases⟩ := invariants_of_every_tree
      obtain ⟨hliteral, hdistinct, hlimit, -⟩ := hparsed _ _ source t hparse
      refine ⟨t, _, decoded, rfl, rfl, hjson, hliteral, hdistinct, hlimit 128 rfl,
        hbuilt draft _ rfl, hdecoded _ _ hjson, hrenamed t "s" hdistinct, ?_⟩
      intro u hu
      exact haliases t u "s" ["x"] (some "y") hdistinct hu

end Tree

end CommandTree
