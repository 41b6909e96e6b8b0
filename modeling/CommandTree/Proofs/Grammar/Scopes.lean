import CommandTree.Span
import CommandTree.Token

/-!
# Scopes among tokens

Which brace closes which, and which node a brace belongs to, can be read off a list of tokens
without a parser. Braces match where the tokens between them are balanced. `LeavesOpen` says of the
tokens behind an opening brace that this is the last brace that nothing closes.

`Nodes` are tokens that make up complete nodes, listed with the names of the outermost ones. What
stands behind an opening brace and is made of complete nodes belongs to the scope of that brace.
-/

set_option autoImplicit false

namespace CommandTree

namespace Token

/-! ## Braces that match -/

/-- Every brace has its counterpart. -/
inductive Balanced : List Token → Prop where
  /-- There is no token. -/
  | nil : Balanced []
  /-- A token that is no brace stands first. -/
  | other {t : Token} {ts : List Token} :
    t ≠ .openScope → t ≠ .closeScope → Balanced ts → Balanced (t :: ts)
  /-- An opening brace stands first and is closed further on. -/
  | scope {inner ts : List Token} :
    Balanced inner → Balanced ts → Balanced (.openScope :: (inner ++ .closeScope :: ts))

/-- Among the tokens behind an opening brace is the closing brace that matches it. -/
def ClosesScope (behind : List Token) : Prop :=
  ∃ inner rest, Balanced inner ∧ behind = inner ++ .closeScope :: rest

/-- Among the tokens behind an opening brace nothing matches it, and every opening brace among them
is matched: it is the last one that stays open. -/
def LeavesOpen (behind : List Token) : Prop :=
  ¬ ClosesScope behind ∧
    ∀ before rest, behind = before ++ .openScope :: rest → ClosesScope rest

/-- What closes a scope closes it whatever else follows. -/
theorem ClosesScope.append {behind : List Token} (h : ClosesScope behind) (more : List Token) :
    ClosesScope (behind ++ more) := by
  obtain ⟨inner, rest, hinner, rfl⟩ := h
  exact ⟨inner, rest ++ more, hinner, by simp⟩

namespace Balanced

variable {ts us : List Token}

/-- Balanced tokens stay balanced one behind the other. -/
theorem append (h : Balanced ts) (hus : Balanced us) : Balanced (ts ++ us) := by
  induction h with
  | nil => exact hus
  | other hopen hclose _ ih => exact .other hopen hclose ih
  | scope hinner _ _ ih =>
    rw [List.cons_append, List.append_assoc, List.cons_append]
    exact .scope hinner ih

/-- Words are balanced, since they are no braces. -/
theorem of_words (h : ∀ t ∈ ts, t.isWord = true) : Balanced ts := by
  induction ts with
  | nil => exact .nil
  | cons t ts ih =>
    obtain ⟨ht, hts⟩ := List.forall_mem_cons.mp h
    obtain ⟨text, rfl⟩ := t.isWord_iff.mp ht
    exact .other (by simp) (by simp) (ih hts)

/-- A scope adds its own opening brace to those inside it and behind it. -/
theorem count_openScope (inner ts : List Token) :
    (openScope :: (inner ++ closeScope :: ts)).count openScope =
      inner.count openScope + ts.count openScope + 1 := by
  rw [List.count_cons_self, List.count_append, List.count_cons_of_ne (by simp)]

/-- A scope adds its own closing brace to those inside it and behind it. -/
theorem count_closeScope (inner ts : List Token) :
    (openScope :: (inner ++ closeScope :: ts)).count closeScope =
      inner.count closeScope + ts.count closeScope + 1 := by
  rw [List.count_cons_of_ne (by simp), List.count_append, List.count_cons_self, Nat.add_assoc]

/-- Balanced tokens have as many opening as closing braces. -/
theorem count_eq (h : Balanced ts) : ts.count openScope = ts.count closeScope := by
  induction h with
  | nil => rfl
  | other hopen hclose _ ih => rw [List.count_cons_of_ne hopen, List.count_cons_of_ne hclose, ih]
  | scope _ _ hinner hts => rw [count_openScope, count_closeScope, hinner, hts]

/-- Up to any place there are at least as many opening braces as closing ones. -/
theorem count_le (h : Balanced ts) {before rest : List Token} (heq : ts = before ++ rest) :
    before.count closeScope ≤ before.count openScope := by
  induction h generalizing before rest with
  | nil =>
    obtain ⟨rfl, -⟩ := List.append_eq_nil_iff.mp heq.symm
    exact Nat.le_refl 0
  | other hopen hclose _ ih =>
    obtain ⟨rfl, -⟩ | ⟨before, rfl, htail⟩ := List.cons_eq_append_iff.mp heq
    · exact Nat.le_refl 0
    · rw [List.count_cons_of_ne hopen, List.count_cons_of_ne hclose]
      exact ih htail
  | scope hinner _ ihinner ih =>
    obtain ⟨rfl, -⟩ | ⟨before, rfl, htail⟩ := List.cons_eq_append_iff.mp heq
    · exact Nat.le_refl 0
    -- the place is behind the closing brace or in front of it
    obtain ⟨behind, rfl, hbehind⟩ | ⟨behind, hbehind, -⟩ := List.append_eq_append_iff.mp htail
    · obtain ⟨rfl, -⟩ | ⟨behind, rfl, hrest⟩ := List.cons_eq_append_iff.mp hbehind
      · rw [List.append_nil, List.count_cons_of_ne (by simp), List.count_cons_self,
          hinner.count_eq]
        exact Nat.le_succ _
      · rw [count_openScope, count_closeScope, hinner.count_eq]
        have hle := ih hrest
        omega
    · rw [List.count_cons_of_ne (by simp), List.count_cons_self]
      exact Nat.le_succ_of_le (ihinner hbehind)

/-- Balanced tokens do not close the scope in which they stand. -/
theorem not_closesScope (h : Balanced ts) : ¬ ClosesScope ts := by
  rintro ⟨inner, rest, hinner, rfl⟩
  have hle := h.count_le (List.append_cons inner .closeScope rest)
  have hnone : [closeScope].count openScope = 0 := rfl
  rw [List.count_append, List.count_append, hinner.count_eq, hnone,
    List.count_singleton_self] at hle
  omega

/-- Every opening brace is closed. -/
theorem closesScope (h : Balanced ts) {before rest : List Token}
    (heq : ts = before ++ .openScope :: rest) : ClosesScope rest := by
  induction h generalizing before rest with
  | nil => simp at heq
  | other hopen _ _ ih =>
    obtain ⟨-, hhead⟩ | ⟨before, -, htail⟩ := List.cons_eq_append_iff.mp heq
    · exact absurd (List.head_eq_of_cons_eq hhead).symm hopen
    · exact ih htail
  | @scope inner ts hinner _ ihinner ih =>
    obtain ⟨-, hhead⟩ | ⟨before, -, htail⟩ := List.cons_eq_append_iff.mp heq
    · exact ⟨inner, ts, hinner, List.tail_eq_of_cons_eq hhead⟩
    obtain ⟨behind, -, hbehind⟩ | ⟨behind, hfront, hbehind⟩ := List.append_eq_append_iff.mp htail
    · obtain ⟨-, hhead⟩ | ⟨behind, -, hrest⟩ := List.cons_eq_append_iff.mp hbehind
      · simp at hhead
      · exact ih hrest
    · obtain ⟨-, hhead⟩ | ⟨behind, rfl, rfl⟩ := List.cons_eq_append_iff.mp hbehind
      · simp at hhead
      · exact (ihinner hfront).append _

/-- A brace with balanced tokens behind it is the last one that stays open. -/
theorem leavesOpen (h : Balanced ts) : LeavesOpen ts :=
  ⟨h.not_closesScope, fun _ _ => h.closesScope⟩

end Balanced

end Token

/-! ## Nodes and their names -/

mutual

/-- Complete nodes one behind the other, with the names of the outermost ones. -/
inductive Nodes : List (Located Token) → List (Located String) → Prop where
  /-- There is no node. -/
  | nil : Nodes [] []
  /-- A node is a name, the words of a type, and what ends the node. -/
  | cons (name : Located String) {type body rest : List (Located Token)}
      {names : List (Located String)} :
    (∀ t ∈ type, t.value.isWord = true) → EndsNode body → Nodes rest names →
    Nodes (⟨.word name.value, name.span⟩ :: (type ++ body ++ rest)) (name :: names)

/-- What ends a node: a semicolon, or nodes between braces. -/
inductive EndsNode : List (Located Token) → Prop where
  /-- A node without a scope. -/
  | terminator (span : Span) : EndsNode [⟨.terminator, span⟩]
  /-- A node with a scope. -/
  | scope (opening closing : Span) {inner : List (Located Token)} {names : List (Located String)} :
    Nodes inner names → EndsNode (⟨.openScope, opening⟩ :: (inner ++ [⟨.closeScope, closing⟩]))

end

/-- The last token, if there is one, is no word. -/
def LastIsNoWord (ts : List (Located Token)) : Prop := ∀ t ∈ ts.getLast?, t.value.isWord = false

/-- The tokens end in the head of a node: its name and behind it the words of a type. -/
def EndsInHead (ts : List (Located Token)) (name : Located String) : Prop :=
  ∃ front type, ts = front ++ ⟨.word name.value, name.span⟩ :: type ∧ LastIsNoWord front ∧
    ∀ t ∈ type, t.value.isWord = true

/-- A brace opens the scope of a node, and `inner` is what stands behind the brace. -/
def OpensScope (ts : List (Located Token)) (owner : Located String) (opening : Span)
    (inner : List (Located Token)) : Prop :=
  ∃ head, EndsInHead head owner ∧ ts = head ++ ⟨.openScope, opening⟩ :: inner

/-- Behind a last token that is no word there is no word. -/
theorem lastIsNoWord_concat {ts : List (Located Token)} {t : Located Token}
    (h : t.value.isWord = false) : LastIsNoWord (ts ++ [t]) := by
  simp [LastIsNoWord, h]

/-- What ends a node ends in a token that is no word. -/
theorem EndsNode.lastIsNoWord {body : List (Located Token)} (h : EndsNode body)
    (front : List (Located Token)) : LastIsNoWord (front ++ body) := by
  cases h with
  | terminator span => exact lastIsNoWord_concat rfl
  | scope opening closing hinner =>
    rw [← List.cons_append, ← List.append_assoc]
    exact lastIsNoWord_concat rfl

/-- Complete nodes stay complete one behind the other. -/
theorem Nodes.append {ts us : List (Located Token)} {names others : List (Located String)} :
    Nodes ts names → Nodes us others → Nodes (ts ++ us) (names ++ others)
  | .nil, hus => hus
  | .cons name hwords hbody hrest, hus => by
    rw [List.cons_append, List.append_assoc, List.cons_append]
    exact .cons name hwords hbody (hrest.append hus)

/-- Complete nodes end in no word, and where there are none, what is in front of them counts. -/
theorem Nodes.lastIsNoWord {front ts : List (Located Token)} {names : List (Located String)}
    (hfront : LastIsNoWord front) : Nodes ts names → LastIsNoWord (front ++ ts)
  | .nil => by rwa [List.append_nil]
  | @Nodes.cons name type _ _ _ _ hbody hrest => by
    have hnode := hbody.lastIsNoWord (front ++ ⟨.word name.value, name.span⟩ :: type)
    have hall := hrest.lastIsNoWord hnode
    simpa using hall

namespace OpensScope

variable {ts inner : List (Located Token)} {owner : Located String} {opening : Span}

/-- What is read behind a brace belongs to its scope. -/
theorem append (h : OpensScope ts owner opening inner) (more : List (Located Token)) :
    OpensScope (ts ++ more) owner opening (inner ++ more) := by
  obtain ⟨head, hhead, rfl⟩ := h
  exact ⟨head, hhead, by simp⟩

/-- Behind complete nodes of a scope the next node starts with its head. -/
theorem endsInHead (h : OpensScope ts owner opening inner) {names : List (Located String)}
    (hnodes : Nodes inner names) (name : Located String) {type : List (Located Token)}
    (hwords : ∀ t ∈ type, t.value.isWord = true) :
    EndsInHead (ts ++ ⟨.word name.value, name.span⟩ :: type) name := by
  obtain ⟨head, -, rfl⟩ := h
  refine ⟨_, type, rfl, ?_, hwords⟩
  rw [List.append_cons]
  exact hnodes.lastIsNoWord (lastIsNoWord_concat rfl)

end OpensScope

mutual

/-- Complete nodes are balanced. -/
theorem Nodes.balanced {ts : List (Located Token)} {names : List (Located String)} :
    Nodes ts names → Token.Balanced (ts.map Located.value)
  | .nil => .nil
  | @Nodes.cons _ type _ _ _ hwords hbody hrest => by
    simp only [List.map_cons, List.map_append]
    have htype : Token.Balanced (type.map Located.value) := .of_words (by simpa using hwords)
    exact .other (by simp) (by simp) ((htype.append hbody.balanced).append hrest.balanced)

/-- What ends a node is balanced. -/
theorem EndsNode.balanced {body : List (Located Token)} :
    EndsNode body → Token.Balanced (body.map Located.value)
  | .terminator _ => .other (by simp) (by simp) .nil
  | .scope _ _ hinner => by
    simp only [List.map_cons, List.map_append, List.map_nil]
    exact .scope hinner.balanced .nil

end

end CommandTree
