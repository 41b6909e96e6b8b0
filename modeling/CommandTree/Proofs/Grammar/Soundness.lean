import CommandTree.Proofs.Grammar.Phrase
import CommandTree.Proofs.Grammar.TypeReadings
import CommandTree.Tree.Parser

/-!
# What the parser accepts is derived

Whatever the parser reads, it consumed the tokens of a phrase, and the tree that it returns is the
one that the phrase denotes. The proof goes through the parser in the way it runs, a body or a child
at a time, so it follows its measure, the size of what is left of the stream.

Two properties of the tree are checked on the way: no two siblings share a name, and no node is
below the deepest level. For the loop over the children of a scope this means that the children that
are still to be read have other names than those that were seen.
-/

set_option autoImplicit false

namespace CommandTree

/-- So many levels may be used from a level on. -/
def Settings.Covers (settings : Settings) (level depth : Nat) : Prop :=
  ∀ limit, settings.maxDepth = some limit → level + depth ≤ limit + 1

namespace Settings

variable {settings : Settings} {level : Nat}

/-- From the first level on the settings cover exactly the depths that they allow. -/
theorem covers_one_iff (depth : Nat) :
    settings.Covers 1 depth ↔ settings.allows depth = true := by
  unfold Covers allows
  cases settings.maxDepth with
  | none => simp
  | some limit =>
    simp only [Option.some.injEq, forall_eq', Option.all_some, decide_eq_true_eq]
    omega

/-- A level that is used leaves one level less below it. -/
theorem covers_succ (depth : Nat) :
    settings.Covers level (1 + depth) ↔ settings.Covers (level + 1) depth := by
  simp only [Covers, Nat.add_assoc]

/-- The settings cover the greater of two depths if they cover both. -/
theorem covers_max (depth depth' : Nat) :
    settings.Covers level (max depth depth') ↔
      settings.Covers level depth ∧ settings.Covers level depth' := by
  unfold Covers
  constructor
  · intro h
    refine ⟨fun limit hlimit => ?_, fun limit hlimit => ?_⟩ <;> have := h limit hlimit <;> omega
  · rintro ⟨h, h'⟩ limit hlimit
    have := h limit hlimit
    have := h' limit hlimit
    omega

/-- The parser lets a level pass exactly if the settings cover one level from there on. -/
theorem filter_eq_none_iff :
    settings.maxDepth.filter (· < level) = none ↔ settings.Covers level 1 := by
  unfold Covers
  cases settings.maxDepth with
  | none => simp
  | some limit =>
    simp only [Option.filter_eq_none_iff, Option.some.injEq, forall_eq', decide_eq_true_eq]
    omega

end Settings

namespace Tree

variable {registry : Registry} {settings : Settings}

/-! ## Heads -/

/-- A name that is read is the next word. -/
theorem consumes_of_readName {problem : Token → Problem} {s : TokenStream}
    {name : Located String} {left : Left s.size} (h : readName problem s = .ok (name, left)) :
    s.Consumes [.word name.value] left.val := by
  unfold readName at h
  split at h
  · simp at h
  · rename_i text span s' hnext
    rw [Except.ok.injEq, Prod.mk.injEq] at h
    obtain ⟨rfl, rfl⟩ := h
    exact .of_next hnext
  · simp at h

/-- A type that is read is declared by the next words, and no type by no words. -/
theorem consumes_of_readType (hready : registry.ReadyMade) {bound : Nat} {s left : Left bound}
    {type : Option ArgType} (h : readType registry settings s = .ok (type, left)) :
    ∃ words, registry.Types settings.defaultSpace words type ∧
      s.val.Consumes (words.map .word) left.val := by
  unfold readType at h
  split at h
  · simp at h
  · rename_i s' hword
    rw [Except.ok.injEq, Prod.mk.injEq] at h
    obtain ⟨rfl, rfl⟩ := h
    exact ⟨[], .literal, .of_nextWord?_none hword⟩
  · rename_i word s' hword
    split at h
    · simp at h
    · rename_i type' s'' hresolve
      rw [Except.ok.injEq, Prod.mk.injEq] at h
      obtain ⟨rfl, rfl⟩ := h
      obtain ⟨words, htypes, hwords⟩ :=
        (Registry.accepts_resolve hready settings.defaultSpace word).sound hresolve
      exact ⟨_, htypes, (TokenStream.Consumes.of_nextWord? hword).trans hwords⟩

/-- A head that is read consists of the next word and the words that declare its type. -/
theorem consumes_of_readHead (hready : registry.ReadyMade) {s : TokenStream} {head : Head}
    {left : Left s.size} (h : readHead registry settings s = .ok (head, left)) :
    ∃ words, registry.Types settings.defaultSpace words head.type ∧
      s.Consumes (.word head.name.value :: words.map .word) left.val := by
  unfold readHead at h
  split at h
  · simp at h
  · rename_i name s' hname
    split at h
    · simp at h
    · rename_i type s'' htype
      rw [Except.ok.injEq, Prod.mk.injEq] at h
      obtain ⟨rfl, rfl⟩ := h
      obtain ⟨words, htypes, hwords⟩ := consumes_of_readType hready htype
      exact ⟨words, htypes, (consumes_of_readName hname).trans hwords⟩

/-! ## Bodies and scopes -/

/-- A name is new behind a noted one if it differs from that one and was new before. -/
theorem lookup_cons_eq_none_iff {name name' : String} {span : Span} {seen : Seen} :
    ((name, span) :: seen : Seen).lookup name' = none ↔
      name' ≠ name ∧ seen.lookup name' = none := by
  rw [List.lookup_cons]
  by_cases hname : name' = name
  · simp [hname]
  · rw [beq_eq_false_iff_ne.mpr hname]
    exact (and_iff_right hname).symm

/-- Things whose names differ from each other and from those that were seen, when the name of the
first one is noted before the others. -/
theorem fresh_cons_iff {α : Type} (name : α → String) (a : α) (as : List α) (span : Span)
    (seen : Seen) :
    ((a :: as).map name).Nodup ∧ (∀ b ∈ a :: as, seen.lookup (name b) = none) ↔
      seen.lookup (name a) = none ∧ (as.map name).Nodup ∧
        ∀ b ∈ as, ((name a, span) :: seen : Seen).lookup (name b) = none := by
  constructor
  · rintro ⟨hnodup, hfresh⟩
    obtain ⟨hmem, hnodup⟩ := List.nodup_cons.mp hnodup
    obtain ⟨ha, hfresh⟩ := List.forall_mem_cons.mp hfresh
    refine ⟨ha, hnodup, fun b hb => ?_⟩
    apply lookup_cons_eq_none_iff.mpr
    exact ⟨ne_of_mem_of_not_mem (List.mem_map_of_mem hb) hmem, hfresh b hb⟩
  · rintro ⟨ha, hnodup, hfresh⟩
    have hother : ∀ b ∈ as, name b ≠ name a ∧ seen.lookup (name b) = none := by
      intro b hb
      exact lookup_cons_eq_none_iff.mp (hfresh b hb)
    refine ⟨List.nodup_cons.mpr ⟨fun hmem => ?_, hnodup⟩, ?_⟩
    · obtain ⟨b, hb, hsame⟩ := List.mem_map.mp hmem
      exact (hother b hb).1 hsame
    · exact List.forall_mem_cons.mpr ⟨ha, fun b hb => (hother b hb).2⟩

/-- A word causes no problem in a scope exactly if it was not seen there. -/
theorem childProblem_word_eq_none_iff {parent name : String} {opening : Span} {seen : Seen} :
    childProblem parent opening seen (.word name) = none ↔ seen.lookup name = none := by
  simp [childProblem]

mutual

/-- A body that is read completes the head in front of it to a phrase. -/
theorem consumes_of_readBody (hready : registry.ReadyMade) {level : Nat} {head : Head}
    {s : TokenStream} {t : Tree} {left : Left s.size} {words : List String}
    (hwords : registry.Types settings.defaultSpace words head.type)
    (h : readBody registry settings level head s = .ok (t, left)) :
    ∃ p : Phrase, p.name = head.name.value ∧ p.words = words ∧
      p.Denotes registry settings.defaultSpace t ∧ s.Consumes p.body left.val ∧
      t.Distinct ∧ settings.Covers level t.depth := by
  rw [readBody] at h
  split at h
  · simp at h
  · rename_i hlevel
    have hcovers := Settings.filter_eq_none_iff.mp hlevel
    split at h
    · simp at h
    · rename_i span s' hnext
      rw [Except.ok.injEq, Prod.mk.injEq] at h
      obtain ⟨rfl, rfl⟩ := h
      exact ⟨.leaf head.name.value words, rfl, rfl, ⟨rfl, hwords, rfl⟩, .of_next hnext,
        ⟨by simp, trivial⟩, hcovers⟩
    · rename_i opening s' hnext
      split at h
      · simp at h
      · rename_i children s'' hchildren
        rw [Except.ok.injEq, Prod.mk.injEq] at h
        obtain ⟨rfl, rfl⟩ := h
        have hlt := TokenStream.size_next_lt hnext (by simp)
        obtain ⟨ps, us, rfl, hdenotes, hconsumes, hnodup, hdistinct, hdepth, -⟩ :=
          consumes_of_readChildren hready ((Settings.covers_succ 0).mp hcovers) hchildren
        refine ⟨.scope head.name.value words ps, rfl, rfl, ⟨rfl, hwords, hdenotes⟩, ?_,
          ⟨hnodup, hdistinct⟩, (Settings.covers_succ _).mpr hdepth⟩
        exact (TokenStream.Consumes.of_next hnext).trans hconsumes
    · simp at h
termination_by s.size
decreasing_by exact hlt

/-- The children of a scope that are read are phrases, whose names differ from each other and from
those that were seen. -/
theorem consumes_of_readChildren (hready : registry.ReadyMade) {level : Nat} {parent : String}
    {opening : Span} {seen : Seen} {read ts : List Tree} {bound : Nat} {s left : Left bound}
    (hlevel : settings.Covers (level + 1) 0)
    (h : readChildren registry settings level parent opening seen read s = .ok (ts, left)) :
    ∃ ps us, ts = read.reverse ++ us ∧
      Phrase.DenotesAll registry settings.defaultSpace ps us ∧
      s.val.Consumes (Phrase.tokensAll ps ++ [.closeScope]) left.val ∧
      (us.map name).Nodup ∧ DistinctAll us ∧ settings.Covers (level + 1) (depthAll us) ∧
      ∀ u ∈ us, seen.lookup u.name = none := by
  rw [readChildren] at h
  split at h
  · simp at h
  · rename_i token s' hpeek
    have hnext := TokenStream.next_of_peeked (TokenStream.peeked_of_peek hpeek)
    split at h
    · rename_i hclose
      rw [Except.ok.injEq, Prod.mk.injEq] at h
      obtain ⟨rfl, rfl⟩ := h
      refine ⟨[], [], (List.append_nil _).symm, trivial, ?_, List.nodup_nil, trivial, hlevel,
        by simp⟩
      have hconsumes : s'.Consumes [.closeScope] s'.next.2 := by
        rw [hnext, ← hclose]
        exact .of_next hnext
      exact (TokenStream.Consumes.of_peek hpeek).trans hconsumes
    · split at h
      · simp at h
      · rename_i hproblem
        split at h
        · simp at h
        · rename_i head s₁ hs₁ hhead
          split at h
          · simp at h
          · rename_i child s₂ hs₂ hbody
            have hle : s'.size ≤ s.val.size :=
              TokenStream.size_le_of_reaches (TokenStream.Reaches.peek_of_eq hpeek)
            have hlt₁ : s₁.size < s.val.size := by omega
            have hlt₂ : s₂.size < s.val.size := by omega
            obtain ⟨words, hwords, hhead⟩ := consumes_of_readHead hready hhead
            obtain ⟨p, hname, rfl, hdenotes, hbody, hdistinct, hdepth⟩ :=
              consumes_of_readBody hready hwords hbody
            obtain ⟨ps, us, rfl, hdenotesAll, hrest, hnodup, hdistinctAll, hdepthAll, hseen⟩ :=
              consumes_of_readChildren hready hlevel h
            -- the token that was looked at is the name of the child
            have htoken := ((TokenStream.upcoming_cons_of_next hnext).mp hhead.upcoming).1
            rw [← htoken, childProblem_word_eq_none_iff, ← hname, ← hdenotes.name_eq] at hproblem
            simp only [noteChild, ← htoken, ← hname, ← hdenotes.name_eq] at hseen
            obtain ⟨hnodup, hfresh⟩ :=
              (fresh_cons_iff name child us _ seen).mpr ⟨hproblem, hnodup, hseen⟩
            have hconsumes : s'.Consumes p.tokens s₂ := by
              rw [Phrase.tokens_eq, hname]
              exact hhead.trans hbody
            refine ⟨p :: ps, child :: us, by simp, ⟨hdenotes, hdenotesAll⟩, ?_, hnodup,
              ⟨hdistinct, hdistinctAll⟩, (Settings.covers_max _ _).mpr ⟨hdepth, hdepthAll⟩, hfresh⟩
            rw [Phrase.tokensAll, List.append_assoc]
            exact (TokenStream.Consumes.of_peek hpeek).trans (hconsumes.trans hrest)
termination_by s.val.size
decreasing_by
  · exact hlt₁
  · exact hlt₂

end

/-! ## Whole files -/

/-- A root that is read stands there as a phrase that denotes it, without a type and within the
limit. -/
theorem consumes_of_readRoot (hready : registry.ReadyMade) {s s' : TokenStream} {t : Tree}
    (h : readRoot registry settings s = .ok (t, s')) :
    ∃ p : Phrase, s.Consumes p.tokens s' ∧ p.words = [] ∧
      p.Denotes registry settings.defaultSpace t ∧ t.Distinct ∧ settings.allows t.depth = true := by
  unfold readRoot at h
  split at h
  · simp at h
  · rename_i name q hq hname
    split at h
    · simp at h
    · rename_i token q' hpeek
      split at h
      · simp at h
      · split at h
        · simp at h
        · rename_i root after hbody
          rw [Except.ok.injEq, Prod.mk.injEq] at h
          obtain ⟨rfl, rfl⟩ := h
          obtain ⟨p, hpname, hwords, hdenotes, hconsumes, hdistinct, hdepth⟩ :=
            consumes_of_readBody hready .literal hbody
          refine ⟨p, ?_, hwords, hdenotes, hdistinct, (Settings.covers_one_iff _).mp hdepth⟩
          rw [Phrase.tokens_eq, hwords, hpname]
          have hlook := TokenStream.Consumes.of_peek hpeek
          exact (consumes_of_readName hname).trans (hlook.trans hconsumes)

/-- A tree that is read up to the end of input is denoted by a phrase whose tokens, and no others,
are those of the stream. -/
theorem derives_of_readWhole (hready : registry.ReadyMade) {s s' : TokenStream} {t : Tree}
    (h : readWhole registry settings s = .ok (t, s')) :
    ∃ p : Phrase, p.Derives registry settings s t := by
  unfold readWhole at h
  split at h
  · simp at h
  · rename_i root q hroot
    split at h
    · simp at h
    · rename_i token q' hnext
      split at h
      · rename_i hend
        rw [Except.ok.injEq, Prod.mk.injEq] at h
        obtain ⟨rfl, rfl⟩ := h
        obtain ⟨p, hconsumes, hwords, hdenotes, hdistinct, hdepth⟩ :=
          consumes_of_readRoot hready hroot
        refine ⟨p, ?_, hwords, hdenotes, hdistinct, hdepth⟩
        rw [TokenStream.lexes_iff p.endOfInput_notMem_tokens, hconsumes, ← hend]
        exact (TokenStream.Consumes.of_next hnext).upcoming
      · simp at h

end Tree

end CommandTree
