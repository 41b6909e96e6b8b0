/-!
# Tables in the order of their names

A table is a list of named values whose names ascend, character by character, so that every name
occurs once. Putting a value under a name that is there already replaces the value. What a table
holds under a name after putting a value is said by `lookup_put`.
-/

set_option autoImplicit false

namespace CommandTree

/-- Named values in ascending order of their names. -/
structure SortedTable (β : Type) where
  /-- The names with their values. -/
  entries : List (String × β)
  /-- The names ascend. -/
  ascending : entries.Pairwise fun a b => a.1 < b.1
deriving DecidableEq

namespace SortedTable

variable {β : Type}

/-- The table without values. -/
def empty : SortedTable β := ⟨[], List.Pairwise.nil⟩

/-- Puts a value under a name in front of the first entry whose name does not precede it. -/
def insert (name : String) (value : β) : List (String × β) → List (String × β)
  | [] => [(name, value)]
  | entry :: rest =>
    if name = entry.1 then (name, value) :: rest
    else if name < entry.1 then (name, value) :: entry :: rest
    else entry :: insert name value rest

/-- Putting a value adds no entry but that value. -/
theorem mem_insert {name : String} {value : β} {entries : List (String × β)} {entry : String × β}
    (h : entry ∈ insert name value entries) : entry = (name, value) ∨ entry ∈ entries := by
  induction entries with
  | nil => exact Or.inl (List.mem_singleton.mp h)
  | cons first rest ih =>
    unfold insert at h
    split at h
    · rcases List.mem_cons.mp h with h | h
      · exact Or.inl h
      · exact Or.inr (List.mem_cons_of_mem _ h)
    · split at h
      · exact List.mem_cons.mp h
      · rcases List.mem_cons.mp h with h | h
        · exact Or.inr (h ▸ List.mem_cons_self)
        · exact (ih h).imp_right (List.mem_cons_of_mem _)

/-- Putting a value keeps the names in order. -/
theorem ascending_insert (name : String) (value : β) {entries : List (String × β)}
    (h : entries.Pairwise fun a b => a.1 < b.1) :
    (insert name value entries).Pairwise fun a b => a.1 < b.1 := by
  induction entries with
  | nil => exact List.pairwise_singleton _ _
  | cons first rest ih =>
    obtain ⟨hfirst, hrest⟩ := List.pairwise_cons.mp h
    unfold insert
    split
    · rename_i heq
      exact List.pairwise_cons.mpr ⟨fun entry hm => heq ▸ hfirst entry hm, hrest⟩
    · rename_i hne
      split
      · rename_i hlt
        refine List.pairwise_cons.mpr ⟨fun entry hm => ?_, h⟩
        rcases List.mem_cons.mp hm with rfl | hm
        · exact hlt
        · exact String.lt_trans hlt (hfirst entry hm)
      · rename_i hnlt
        refine List.pairwise_cons.mpr ⟨fun entry hm => ?_, ih hrest⟩
        rcases mem_insert hm with rfl | hm
        · exact String.not_le.mp fun hle => hne (String.le_antisymm hle (String.not_lt.mp hnlt))
        · exact hfirst entry hm

/-- Puts a value under a name. -/
def put (name : String) (value : β) (table : SortedTable β) : SortedTable β :=
  ⟨insert name value table.entries, ascending_insert name value table.ascending⟩

/-- The table of a list of named values, of which a later one replaces an earlier one. -/
def ofList (entries : List (String × β)) : SortedTable β :=
  entries.foldl (fun table entry => table.put entry.1 entry.2) empty

/-- The value under a name. -/
def lookup (name : String) (table : SortedTable β) : Option β := table.entries.lookup name

/-- A table holds under a name what was put there last, and under any other name what it held
before. -/
theorem lookup_put (name other : String) (value : β) (table : SortedTable β) :
    (table.put name value).lookup other =
      if other = name then some value else table.lookup other := by
  obtain ⟨entries, h⟩ := table
  simp only [put, lookup]
  induction entries with
  | nil =>
    by_cases ho : other = name
    · simp [insert, ho]
    · have hb : (other == name) = false := by simpa using ho
      simp [insert, List.lookup_cons, ho, hb]
  | cons entry rest ih =>
    obtain ⟨key, present⟩ := entry
    have ih := ih (List.pairwise_cons.mp h).2
    unfold insert
    by_cases ho : other = name
    · subst ho
      split
      · simp
      · rename_i hne
        have hb : (other == key) = false := by simpa using hne
        split
        · simp
        · simp [List.lookup_cons, hb, ih]
    · have hb : (other == name) = false := by simpa using ho
      split
      · rename_i heq
        have hk : (other == key) = false := beq_eq_false_iff_ne.mpr fun h => ho (h.trans heq.symm)
        simp [List.lookup_cons, hb, hk]
      · split
        · simp [List.lookup_cons, hb]
        · simp [List.lookup_cons, ih, ho]

end SortedTable

end CommandTree
