import CommandTree.Proofs.Format.WrittenWords
import CommandTree.Proofs.Stream.Sequence

/-!
# Quoting is exact

Words that are written one behind the other are read back as these words and nothing else. And a
word gets quotes only if it needs them: it is written as it is exactly when it would be read as that
one word.

The second statement rests on lengths. What stands between quotes spells a text that is no longer,
so a text that starts with a quote never spells itself. A text that is read as itself is therefore a
bare word, and nothing stands around it.
-/

set_option autoImplicit false

namespace CommandTree

namespace Lexis

/-! ## Words that spell themselves -/

/-- What stands between quotes is at least as long as what it spells. -/
theorem Spells.length_le {body text : List Char} (h : Spells body text) :
    text.length ≤ body.length := by
  induction h with
  | nil => exact Nat.le_refl _
  | plain _ _ _ _ ih => exact Nat.succ_le_succ ih
  | escape _ _ ih =>
    simp only [List.length_cons]
    omega
  | octal _ _ _ ih =>
    simp only [List.length_cons, List.length_append]
    omega

/-- Only a bare word is a token that stands for its own characters and those around it. -/
theorem Lexeme.bareWord {slice behind : List Char} {value : Token} (h : Lexeme slice behind value)
    {word : String} (hvalue : value = .word word) (hlength : slice.length ≤ word.toList.length) :
    slice = word.toList ∧ BareWord slice behind := by
  cases h with
  | openScope => contradiction
  | closeScope => contradiction
  | terminator => contradiction
  | bare hword =>
    obtain rfl := Token.word.inj hvalue
    exact ⟨String.toList_ofList.symm, hword⟩
  | quoted hbody _ =>
    -- the quote in front makes the token longer than what it spells
    obtain rfl := Token.word.inj hvalue
    have hle := hbody.length_le
    rw [String.toList_ofList] at hlength
    simp only [List.length_cons, List.length_append] at hlength
    omega

/-- A text that is read as the one word that it is needs no quotes. -/
theorem bareWord_of_tiles {word : String} {t : Located Token} {last : Located Token}
    (h : Tiles [] word.toList [t] (.ok last)) (ht : t.value = .word word) :
    BareWord word.toList [] := by
  generalize htext : word.toList = text at h
  cases h with
  | @token _ gap slice behind _ _ _ hgap hlexeme hrest =>
    have hle : slice.length ≤ word.toList.length := by
      rw [htext, List.length_append, List.length_append]
      omega
    obtain ⟨rfl, hword⟩ := hlexeme.bareWord ht hle
    -- the word takes up the whole text, so no room is left for anything around it
    have hlength := congrArg List.length htext
    rw [List.length_append, List.length_append] at hlength
    obtain rfl : gap = [] := List.eq_nil_of_length_eq_zero (by omega)
    obtain rfl : behind = [] := List.eq_nil_of_length_eq_zero (by omega)
    simpa using hword

end Lexis

namespace Quoted

open Lexis

/-! ## What is written -/

/-- Escaping makes no text shorter. -/
theorem length_le_escape (cs : List Char) : cs.length ≤ (cs.flatMap escape).length :=
  (spells_flatMap_escape cs).length_le

/-- A text is written as it is exactly if it needs no quotes, since quotes make it longer. -/
theorem writeChars_eq_self_iff (cs : List Char) : writeChars cs = cs ↔ isBare cs = true := by
  unfold writeChars
  by_cases hbare : isBare cs = true
  · rw [if_pos hbare]
    exact iff_of_true rfl hbare
  · rw [if_neg hbare]
    refine iff_of_false (fun heq => ?_) hbare
    have hlength := congrArg List.length heq
    have hle := length_le_escape cs
    simp only [List.length_append, List.length_cons, List.length_nil] at hlength
    omega

/-- A word is written as it is exactly when it is a bare word. -/
theorem write_eq_self_iff (word : String) : write word = word ↔ BareWord word.toList [] := by
  rw [← isBare_iff_bareWord, ← writeChars_eq_self_iff, write]
  constructor
  · intro heq
    rw [← String.toList_ofList (l := writeChars word.toList), heq]
  · intro heq
    rw [heq, String.ofList_toList]

/-- Written words with blanks between them are read as just these words. -/
theorem lexes_words (words : List String) :
    (TokenStream.ofSource (.ofString (" ".intercalate (words.map write)))).Lexes
      (words.map .word) := by
  have hreads := Reads.words words rfl Reads.nil
  rw [List.append_nil, List.append_nil] at hreads
  exact hreads.lexes

/-- A text is read as the one word that it is exactly when it is a bare word. -/
theorem lexes_self_iff (word : String) :
    (TokenStream.ofSource (.ofString word)).Lexes [.word word] ↔ BareWord word.toList [] := by
  constructor
  · rintro ⟨located, last, htokens, hvalues⟩
    obtain ⟨tokens, ending, htiles⟩ := exists_tiles [] word.toList
    have hsame := TokenStream.tokens_of_tiles htiles (TokenStream.stands_ofString word)
    obtain ⟨rfl, rfl⟩ := Prod.mk.inj (hsame.symm.trans htokens)
    obtain ⟨t, rfl, ht⟩ := List.map_eq_singleton_iff.mp hvalues
    exact bareWord_of_tiles htiles ht
  · intro hword
    have hlexes := lexes_words [word]
    rw [← write_eq_self_iff] at hword
    simpa [hword] using hlexes

/-- A written word is the word as it is, or stands between quotes and is spelled there. -/
theorem write_eq_or_quoted (word : String) :
    write word = word ∨
      ∃ body, (write word).toList = '"' :: (body ++ ['"']) ∧ Spells body word.toList := by
  by_cases hbare : isBare word.toList = true
  · left
    exact (write_eq_self_iff word).mpr ((isBare_iff_bareWord _).mp hbare)
  · right
    refine ⟨_, ?_, spells_flatMap_escape word.toList⟩
    rw [write, String.toList_ofList, writeChars, if_neg hbare, List.cons_append]

/-- Written words with a blank between them are read as these words in their order and then the end
of input. A word is written as it is exactly when it is read as that one word, and else it stands
between quotes. -/
theorem quoting_is_exact :
    (∀ words : List String, ∃ located last,
      (TokenStream.ofSource (.ofString (" ".intercalate (words.map write)))).tokens =
        (located, .ok last) ∧
      located.map Located.value = words.map .word ∧ last.value = .endOfInput) ∧
    ∀ word : String,
      (write word = word ↔ (TokenStream.ofSource (.ofString word)).Lexes [.word word]) ∧
      (write word = word ∨
        ∃ body, (write word).toList = '"' :: (body ++ ['"']) ∧ Spells body word.toList) := by
  refine ⟨fun words => ?_, fun word => ⟨?_, write_eq_or_quoted word⟩⟩
  · obtain ⟨located, last, htokens, hvalues⟩ := lexes_words words
    have hlast := TokenStream.value_of_tokens (s := .ofSource _) (congrArg Prod.snd htokens)
    exact ⟨located, last, htokens, hvalues, hlast⟩
  · rw [write_eq_self_iff, lexes_self_iff]

end Quoted

end CommandTree
