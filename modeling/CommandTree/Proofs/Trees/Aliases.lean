import CommandTree.Proofs.Trees.Paths
import CommandTree.Tree.Alias

/-!
# Labels of a command

The labels of a command are the first occurrences in the list of all its names, in which every name
is followed by its form behind the fallback. A name may well be the form of another one, so what was
listed before counts whatever way it came up.

`FirstOccurrences` says what that means without saying how they are found: nothing is missing,
nothing repeats, and the order is that of the first appearances. There is only one such list. Since
no label repeats, the copies of a tree under the labels of a command can be siblings.
-/

set_option autoImplicit false

namespace CommandTree.Alias

/-! ## First occurrences -/

/-- A list holds the first occurrences of another one. -/
structure FirstOccurrences (found all : List String) : Prop where
  /-- It is left when others are taken out. -/
  sublist : found.Sublist all
  /-- Nothing is missing. -/
  complete : ∀ s, s ∈ all → s ∈ found
  /-- Nothing repeats. -/
  nodup : found.Nodup
  /-- What appears first comes first. -/
  ordered : found.Pairwise fun s s' => all.idxOf s < all.idxOf s'

variable {found all : List String}

/-- First occurrences are determined by the list in which they occur. -/
theorem FirstOccurrences.unique {found' : List String} (h : FirstOccurrences found all)
    (h' : FirstOccurrences found' all) : found = found' := by
  have hperm : found.Perm found' := by
    rw [List.perm_ext_iff_of_nodup h.nodup h'.nodup]
    intro s
    exact ⟨fun hs => h'.complete s (h.sublist.subset hs),
      fun hs => h.complete s (h'.sublist.subset hs)⟩
  refine hperm.eq_of_pairwise (fun s s' _ _ hlt hgt => ?_) h.ordered h'.ordered
  exact absurd hgt (Nat.lt_asymm hlt)

/-- Something in front that is not among the first occurrences moves all of them by one. -/
theorem ordered_cons {first : String} {rest : List String}
    (h : found.Pairwise fun s s' => rest.idxOf s < rest.idxOf s') (hfirst : first ∉ found) :
    found.Pairwise fun s s' => (first :: rest).idxOf s < (first :: rest).idxOf s' := by
  refine h.imp_of_mem fun {s s'} hs hs' hlt => ?_
  rw [List.idxOf_cons_ne rest (ne_of_mem_of_not_mem hs hfirst).symm,
    List.idxOf_cons_ne rest (ne_of_mem_of_not_mem hs' hfirst).symm]
  exact Nat.succ_lt_succ hlt

section

variable (seen ss : List String)

/-- The first occurrences of names are the names that were not seen before. -/
theorem mem_firstSeen_iff {s : String} : s ∈ firstSeen seen ss ↔ s ∈ ss ∧ s ∉ seen := by
  fun_induction firstSeen seen ss with
  | case1 => simp
  | case2 seen first rest hseen ih =>
    have hne : s ∉ seen → s ≠ first := fun hs hsame => hs (hsame ▸ hseen)
    rw [ih, List.mem_cons]
    exact and_congr_left fun hs => (or_iff_right (hne hs)).symm
  | case3 seen first rest hnew ih =>
    rw [List.mem_cons, ih, List.mem_cons, List.mem_cons]
    by_cases hsame : s = first
    · simp [hsame, hnew]
    · simp [hsame]

/-- The first occurrences of names are some of the names. -/
theorem firstSeen_sublist : (firstSeen seen ss).Sublist ss := by
  fun_induction firstSeen seen ss with
  | case1 => exact .slnil
  | case2 seen first rest hseen ih => exact ih.cons first
  | case3 seen first rest hnew ih => exact ih.cons_cons first

/-- The first occurrences of names are distinct. -/
theorem nodup_firstSeen : (firstSeen seen ss).Nodup := by
  fun_induction firstSeen seen ss with
  | case1 => exact List.nodup_nil
  | case2 seen first rest hseen ih => exact ih
  | case3 seen first rest hnew ih =>
    refine List.nodup_cons.mpr ⟨fun hmem => ?_, ih⟩
    exact ((mem_firstSeen_iff _ _).mp hmem).2 List.mem_cons_self

/-- The first occurrences of names stand in the order in which the names occur first. -/
theorem ordered_firstSeen :
    (firstSeen seen ss).Pairwise fun s s' => ss.idxOf s < ss.idxOf s' := by
  fun_induction firstSeen seen ss with
  | case1 => exact .nil
  | case2 seen first rest hseen ih =>
    exact ordered_cons ih fun hmem => ((mem_firstSeen_iff _ _).mp hmem).2 hseen
  | case3 seen first rest hnew ih =>
    have hfirst : first ∉ firstSeen (first :: seen) rest :=
      fun hmem => ((mem_firstSeen_iff _ _).mp hmem).2 List.mem_cons_self
    refine List.pairwise_cons.mpr ⟨fun s hs => ?_, ordered_cons ih hfirst⟩
    rw [List.idxOf_cons_self, List.idxOf_cons_ne rest (ne_of_mem_of_not_mem hs hfirst).symm]
    exact Nat.succ_pos _

end

/-- What is kept of names are their first occurrences. -/
theorem firstOccurrences_firstSeen (ss : List String) :
    FirstOccurrences (firstSeen [] ss) ss where
  sublist := firstSeen_sublist [] ss
  complete := fun _ hs => (mem_firstSeen_iff [] ss).mpr ⟨hs, List.not_mem_nil⟩
  nodup := nodup_firstSeen [] ss
  ordered := ordered_firstSeen [] ss

/-! ## All names -/

/-- A fallback as it stands in front of names: without the blanks around it and in lower case. -/
def cleaned : Option String → String
  | none => ""
  | some text => Lowercase.ofString (String.ofList (Blank.trim text.toList))

/-- The names of a command, the label first, each followed by its form behind the fallback unless
the fallback is empty. -/
def allNames (label : String) (aliases : List String) (fallback : Option String) : List String :=
  if cleaned fallback = "" then label :: aliases
  else (label :: aliases).flatMap fun name => [name, cleaned fallback ++ ":" ++ name]

/-- A fallback that is empty when it is cleaned is none. -/
theorem bind_fallback?_eq (fallback : Option String) :
    fallback.bind fallback? = if cleaned fallback = "" then none else some (cleaned fallback) := by
  cases fallback with
  | none => simp [cleaned]
  | some text =>
    rw [Option.bind_some, fallback?, cleaned]
    generalize Lowercase.ofString (String.ofList (Blank.trim text.toList)) = small
    by_cases h : small = "" <;> simp [h]

/-- The labels of a command are the first occurrences of all its names. -/
theorem labels_eq (label : String) (aliases : List String) (fallback : Option String) :
    labels label aliases fallback = firstSeen [] (allNames label aliases fallback) := by
  rw [labels, bind_fallback?_eq, allNames]
  by_cases h : cleaned fallback = ""
  · have hforms : forms none = fun name => [name] := rfl
    rw [if_pos h, if_pos h, hforms, List.flatMap_singleton']
  · rw [if_neg h, if_neg h]
    rfl

/-! ## Copies of a tree -/

/-- The copies of a command have its labels for names, in their order. -/
theorem map_name_expand (t : Tree) (label : String) (aliases : List String)
    (fallback : Option String) :
    (expand t label aliases fallback).map Tree.name = labels label aliases fallback := by
  rw [expand, List.map_map]
  exact List.map_id _

/-- Renaming a tree does not change whether its siblings are distinct. -/
theorem distinct_renamed_iff (t : Tree) (name : String) :
    (t.renamed name).Distinct ↔ t.Distinct := by
  cases t
  rfl

/-- The label of a command is one of its labels. -/
theorem label_mem_labels (label : String) (aliases : List String) (fallback : Option String) :
    label ∈ labels label aliases fallback := by
  rw [labels_eq, mem_firstSeen_iff, allNames]
  split <;> simp

/-- The copies of a tree can be siblings if there are no siblings of one name in the tree. -/
theorem distinct_expand_iff (t : Tree) (label : String) (aliases : List String)
    (fallback : Option String) (parent : String) (type : Option ArgType) :
    (Tree.node parent type (expand t label aliases fallback)).Distinct ↔ t.Distinct := by
  have hnodup : (labels label aliases fallback).Nodup := by
    rw [labels_eq]
    exact nodup_firstSeen [] _
  rw [Tree.Distinct, map_name_expand, and_iff_right hnodup, Tree.distinctAll_iff, expand,
    List.forall_mem_map]
  constructor
  · intro h
    exact (distinct_renamed_iff t label).mp (h label (label_mem_labels label aliases fallback))
  · intro h name _
    exact (distinct_renamed_iff t name).mpr h

/-! ## What aliases come to -/

/-- The labels of a command are the first occurrences in the list of all its names, and the only
such list. The copies of a tree have these labels for their names, in this order, and differ from
the tree in nothing else. They can be siblings wherever the tree can be a node. -/
theorem labels_are_first_occurrences (label : String) (aliases : List String)
    (fallback : Option String) :
    (∀ found, FirstOccurrences found (allNames label aliases fallback) ↔
      found = labels label aliases fallback) ∧
    ∀ t : Tree,
      (expand t label aliases fallback).map Tree.name = labels label aliases fallback ∧
      (∀ u ∈ expand t label aliases fallback,
        u.isLiteral = t.isLiteral ∧ u.type = t.type ∧ u.children = t.children) ∧
      ∀ parent type,
        (Tree.node parent type (expand t label aliases fallback)).Distinct ↔ t.Distinct := by
  have hlabels := firstOccurrences_firstSeen (allNames label aliases fallback)
  rw [← labels_eq] at hlabels
  refine ⟨fun found => ⟨fun h => h.unique hlabels, ?_⟩, fun t => ⟨map_name_expand t _ _ _, ?_,
    distinct_expand_iff t label aliases fallback⟩⟩
  · rintro rfl
    exact hlabels
  · intro u hu
    obtain ⟨name, -, rfl⟩ := List.mem_map.mp hu
    exact ⟨rfl, rfl, rfl⟩

/-- An alias is the form of the label behind the fallback, and has a form of its own. -/
theorem labels_are_first_occurrences_prefixed_alias :
    let t := Tree.node "give" none [.node "count" (some .bool) []]
    let copies := expand t "give" ["g", "kit:give"] (some " Kit ")
    labels "give" ["g", "kit:give"] (some " Kit ") =
        ["give", "kit:give", "g", "kit:g", "kit:kit:give"] ∧
      t.renamed "kit:give" ∈ copies ∧ (t.renamed "kit:give").children = t.children ∧
      t.Distinct ∧ (Tree.node "r" none copies).Distinct := by
  intro t copies
  have hlabels : labels "give" ["g", "kit:give"] (some " Kit ") =
      ["give", "kit:give", "g", "kit:g", "kit:kit:give"] := by decide +kernel
  have hcopy : t.renamed "kit:give" ∈ copies := List.mem_map_of_mem (by rw [hlabels]; decide)
  have h : t.Distinct := by simp [t, Tree.Distinct, Tree.DistinctAll]
  obtain ⟨-, hcopies⟩ := labels_are_first_occurrences "give" ["g", "kit:give"] (some " Kit ")
  obtain ⟨-, hsame, hdistinct⟩ := hcopies t
  exact ⟨hlabels, hcopy, (hsame _ hcopy).2.2, h, (hdistinct "r" none).mpr h⟩

end CommandTree.Alias
