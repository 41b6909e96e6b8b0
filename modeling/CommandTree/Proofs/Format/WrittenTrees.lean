import CommandTree.Proofs.Format.WrittenWords
import CommandTree.Proofs.Grammar.Phrase
import CommandTree.Tree.Printer

/-!
# Written trees are derived

The canonical form of a tree consists of the tokens of a phrase that has the shape of the tree. A
node is written behind what was written before it, so what it adds is read back in front of any text
that reads already.
-/

set_option autoImplicit false

namespace CommandTree.Tree

open Lexis

mutual

/-- The phrase that the canonical form of a tree is read as. -/
def phrase : Tree → Phrase
  | node name type children =>
    let words := (type.map ArgType.words).getD []
    if children.isEmpty then .leaf name words else .scope name words (phraseAll children)

/-- The phrases of trees, in their order. -/
def phraseAll : List Tree → List Phrase
  | [] => []
  | t :: ts => phrase t :: phraseAll ts

end

/-- The phrase of a tree has the name of the tree. -/
@[simp] theorem name_phrase (t : Tree) : t.phrase.name = t.name := by
  obtain ⟨name, type, children⟩ := t
  cases children <;> rfl

/-- The phrase of a tree has the words of its type. -/
@[simp] theorem words_phrase (t : Tree) :
    t.phrase.words = (t.type.map ArgType.words).getD [] := by
  obtain ⟨name, type, children⟩ := t
  cases children <;> rfl

/-- An indent in front of a text does not change its tokens. -/
theorem reads_indent (level : Nat) {text : List Char} {values : List Token}
    (h : Reads text values) : Reads ((indent level).toList ++ text) values := by
  rw [indent, String.toList_ofList]
  exact h.blanks _

/-- The head of a node is read as the name and the words of the type if no word goes on behind
it. -/
theorem reads_headText (name : String) (type : Option ArgType) {text : List Char}
    {values : List Token} (htext : text.head?.any Word.isWordChar = false)
    (h : Reads text values) :
    Reads ((headText name type).toList ++ text)
      (.word name :: (((type.map ArgType.words).getD []).map .word ++ values)) :=
  Reads.words (headWords name type) htext h

mutual

/-- What a tree adds to the text before it is read as the tokens of its phrase. -/
theorem exists_write (t : Tree) (level : Nat) (out : String) :
    ∃ added, (write level out t).toList = out.toList ++ added ∧
      ∀ text values, Reads text values → Reads (added ++ text) (t.phrase.tokens ++ values) := by
  obtain ⟨name, type, children⟩ := t
  cases children with
  | nil =>
    refine ⟨(indent level).toList ++ ((headText name type).toList ++ [';', '\n']), ?_, ?_⟩
    · simp [write]
    · intro text values h
      have hend := (h.blank (c := '\n') (by decide)).lexeme (.terminator _)
      have hhead := reads_indent level (reads_headText name type rfl hend)
      simpa [phrase, Phrase.tokens] using hhead
  | cons child children =>
    obtain ⟨added, hadded, hreads⟩ := exists_writeAll (child :: children) (level + 1)
      (out ++ indent level ++ headText name type ++ " \x7b\n")
    refine ⟨(indent level).toList ++ ((headText name type).toList ++
      ' ' :: '{' :: '\n' :: (added ++ ((indent level).toList ++ ['}', '\n']))), ?_, ?_⟩
    · simp [write, hadded]
    · intro text values h
      have hend := (h.blank (c := '\n') (by decide)).lexeme (.closeScope _)
      have hinner := hreads _ _ (reads_indent level hend)
      have hscope := ((hinner.blank (c := '\n') (by decide)).lexeme (.openScope _)).blank
        (c := ' ') (by decide)
      have hhead := reads_indent level (reads_headText name type rfl hscope)
      simpa [phrase, Phrase.tokens] using hhead

/-- What the canonical form of siblings adds is read as the tokens of their phrases. -/
theorem exists_writeAll (ts : List Tree) (level : Nat) (out : String) :
    ∃ added, (writeAll level out ts).toList = out.toList ++ added ∧
      ∀ text values, Reads text values →
        Reads (added ++ text) (Phrase.tokensAll (phraseAll ts) ++ values) := by
  cases ts with
  | nil => exact ⟨[], by simp [writeAll], fun text values h => h⟩
  | cons t ts =>
    obtain ⟨first, hfirst, hreads⟩ := exists_write t level out
    obtain ⟨others, hothers, hreadsAll⟩ := exists_writeAll ts level (write level out t)
    refine ⟨first ++ others, ?_, ?_⟩
    · rw [writeAll, hothers, hfirst, List.append_assoc]
    · intro text values h
      have hall := hreads _ _ (hreadsAll _ _ h)
      simpa [phraseAll, Phrase.tokensAll] using hall

end

/-- The canonical form of a tree is read as the tokens of its phrase. -/
theorem lexes_source (t : Tree) :
    (TokenStream.ofSource (.ofString t.source)).Lexes t.phrase.tokens := by
  obtain ⟨added, hadded, hreads⟩ := exists_write t 0 ""
  have h := hreads [] [] Reads.nil
  rw [List.append_nil, List.append_nil] at h
  refine Reads.lexes ?_
  rw [source, hadded]
  exact h

end CommandTree.Tree
