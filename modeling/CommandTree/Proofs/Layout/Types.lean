import CommandTree.Proofs.Layout.Abreast
import CommandTree.Proofs.Parsing.ReadyMade

/-!
# Types in two layouts

What ready-made resolvers read is the same in two layouts, and so is what they refuse. A type keeps
no place, so types that are read are equal. A word that is refused is known by its place alone.
-/

set_option autoImplicit false

namespace CommandTree

open TokenStream (Abreast)

variable {us vs : List (Located Token)} {s s' : TokenStream}

/-! ## Built-in types -/

/-- Reading a mode from streams that are abreast has the same outcome. -/
theorem StringMode.sameOutcome_read (h : s.Abreast us vs s') :
    SameOutcome us vs Eq (StringMode.read s) (StringMode.read s') := by
  refine SameOutcome.next h fun value a b q q' _ hspan hq => ?_
  cases value with
  | word text =>
    dsimp only [Token.word?]
    cases StringMode.ofKeyword? text with
    | none => exact .fail (.same rfl) hspan
    | some mode => exact .ok rfl (hq nofun)
  | _ => exact .fail (.same rfl) hspan

namespace NumberKind

/-- A word is a bound or is refused, wherever it stands. -/
theorem sameOutcome_bound (kind : NumberKind) (text : String) {a b : Span}
    (hspan : a.Faces us vs b) (h : s.Abreast us vs s') :
    SameOutcome us vs Eq (Reading.ofExcept (kind.bound ⟨text, a⟩) s)
      (Reading.ofExcept (kind.bound ⟨text, b⟩) s') := by
  unfold Reading.ofExcept bound
  by_cases hmin : text = "min"
  · rw [if_pos hmin, if_pos hmin]
    exact .ok rfl h
  rw [if_neg hmin, if_neg hmin]
  by_cases hmax : text = "max"
  · rw [if_pos hmax, if_pos hmax]
    exact .ok rfl h
  rw [if_neg hmax, if_neg hmax]
  dsimp only
  rcases kind.read text with e | _ | value
  · exact .fail (.same rfl) hspan
  · exact .fail (.same rfl) hspan
  · exact .ok rfl h

/-- Reading bounds from streams that are abreast has the same outcome. -/
theorem sameOutcome_readBounds (kind : NumberKind) (h : s.Abreast us vs s') :
    SameOutcome us vs Eq (kind.readBounds s) (kind.readBounds s') := by
  apply SameOutcome.nextWord? h
  · intro q q' hq
    exact .ok rfl hq
  intro lowerText a b q q' _ hspan hq
  refine (kind.sameOutcome_bound lowerText hspan hq).bind ?_
  rintro lower _ p p' _ rfl hp
  apply SameOutcome.nextWord? hp
  · intro q q' hq
    exact .ok rfl hq
  intro upperText a b q q' _ hspan hq
  refine (kind.sameOutcome_bound upperText hspan hq).bind ?_
  rintro upper _ p p' _ rfl hp
  split
  · exact .fail (.same rfl) hspan
  · exact .ok rfl hp

end NumberKind

/-- Reading the parameters of a built-in type from streams that are abreast has the same outcome. -/
theorem Builtin.sameOutcome_read (builtin : Builtin) (h : s.Abreast us vs s') :
    SameOutcome us vs Eq (builtin.read s) (builtin.read s') := by
  cases builtin with
  | bool => exact .ok rfl h
  | string =>
    refine (StringMode.sameOutcome_read h).bind ?_
    rintro mode _ q q' _ rfl hq
    exact .ok rfl hq
  | number kind =>
    refine (kind.sameOutcome_readBounds h).bind ?_
    rintro bounds _ q q' _ rfl hq
    exact .ok rfl hq

/-! ## Extension types -/

namespace ParamRule

/-- Reading a fixed number of words from streams that are abreast has the same outcome. -/
theorem sameOutcome_readExactly (key : Key) (count left : Nat) (read : List String)
    (h : s.Abreast us vs s') :
    SameOutcome us vs Eq (readExactly key count left read s)
      (readExactly key count left read s') := by
  induction left generalizing read s s' with
  | zero => exact .ok rfl h
  | succ left ih =>
    apply SameOutcome.nextWord? h
    · intro q q' hq
      refine SameOutcome.peek hq fun value a b p p' _ hspan _ => ?_
      exact .fail (.same rfl) hspan
    · intro text a b q q' _ _ hq
      exact ih (text :: read) hq

/-- Reading all words from streams that are abreast has the same outcome. -/
theorem sameOutcome_readTrailing (read : List String) {s s' : TokenStream}
    (h : s.Abreast us vs s') :
    SameOutcome us vs Eq (readTrailing read s) (readTrailing read s') := by
  rw [readTrailing_eq]
  apply SameOutcome.nextWord? h
  · intro q q' hq
    exact .ok rfl hq
  · intro text a b q q' hword _ hq
    have hlt := TokenStream.size_nextWord?_lt hword
    exact sameOutcome_readTrailing (text :: read) hq
termination_by s.size

/-- Taking the words of a rule from streams that are abreast has the same outcome. -/
theorem sameOutcome_consume (key : Key) (rule : ParamRule) (h : s.Abreast us vs s') :
    SameOutcome us vs Eq (rule.consume key s) (rule.consume key s') := by
  cases rule with
  | none => exact .ok rfl h
  | exactly count => exact sameOutcome_readExactly key count count [] h
  | optional =>
    apply SameOutcome.nextWord? h
    · intro q q' hq
      exact .ok rfl hq
    · intro text a b q q' _ _ hq
      exact .ok rfl hq
  | trailing => exact sameOutcome_readTrailing [] h

end ParamRule

namespace Resolver

/-- Reading an entity from streams that are abreast has the same outcome. -/
theorem sameOutcome_readEntity (key : Key) (h : s.Abreast us vs s') :
    SameOutcome us vs Eq (readEntity key s) (readEntity key s') := by
  refine SameOutcome.next h fun value a b q q' _ hspan hq => ?_
  cases value with
  | word text =>
    dsimp only [Token.word?]
    cases Selection.ofKeyword? text with
    | none => exact .fail (.same rfl) hspan
    | some selection => exact .ok rfl (hq nofun)
  | _ => exact .fail (.same rfl) hspan

/-- Reading a score holder from streams that are abreast has the same outcome. -/
theorem sameOutcome_readScoreHolder (key : Key) (h : s.Abreast us vs s') :
    SameOutcome us vs Eq (readScoreHolder key s) (readScoreHolder key s') := by
  apply SameOutcome.nextWord? h
  · intro q q' hq
    exact .ok rfl hq
  · intro text a b q q' _ hspan hq
    dsimp only
    split
    · exact .ok rfl hq
    · exact .fail (.same rfl) hspan

/-- The reading of a ready-made resolver has the same outcome on streams that are abreast. -/
theorem Reads.sameOutcome {resolver : Resolver} {key : Key} {m : Reading Diagnostic ArgType}
    (hm : resolver.Reads key m) (h : s.Abreast us vs s') : SameOutcome us vs Eq (m s) (m s') := by
  cases hm with
  | declared =>
    refine (ParamRule.sameOutcome_consume key _ h).bind ?_
    rintro payload _ q q' _ rfl hq
    exact .ok rfl hq
  | entity => exact sameOutcome_readEntity key h
  | scoreHolder => exact sameOutcome_readScoreHolder key h
  | brigadier => exact Builtin.sameOutcome_read _ h

end Resolver

/-! ## All types -/

/-- A word names the same type in two layouts, or is refused in both. -/
theorem Registry.sameOutcome_resolve {registry : Registry} (hready : registry.ReadyMade)
    (defaultSpace text : String) {a b : Span} (hspan : a.Faces us vs b) (h : s.Abreast us vs s') :
    SameOutcome us vs Eq (registry.resolve defaultSpace ⟨text, a⟩ s)
      (registry.resolve defaultSpace ⟨text, b⟩ s') := by
  unfold resolve
  cases Builtin.ofName? text with
  | some builtin => exact builtin.sameOutcome_read h
  | none =>
    cases Key.parse text defaultSpace with
    | error e => exact .fail (.same rfl) hspan
    | ok key =>
      cases hfind : registry.find? key with
      | none =>
        simp only [hfind]
        exact .fail (.same rfl) hspan
      | some resolver =>
        have hclaims := List.find?_some hfind
        have hmade := hready resolver (List.mem_of_find?_eq_some hfind)
        obtain ⟨m, hreads, hread⟩ := Resolver.exists_reads hmade hclaims
        simp only [hfind, hread, mapError_diagnose]
        exact hreads.sameOutcome h

end CommandTree
