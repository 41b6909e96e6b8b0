import CommandTree.Tree
import Mathlib.Data.List.Nodup

/-!
# Paths in trees

The nodes of a tree in pre-order are its root, with its own name as the path to it, and then the
nodes of its children one behind the other, with the name of the root put in front of their paths.
`Tree.preorder` says just that, by recursion on the tree. `Tree.walk` keeps a list of the nodes that
wait instead and comes to the same.

The other questions are answered by the same list: it is as long as there are nodes, its longest
path is as long as there are levels, and looking a node up by its path finds the node that stands
there with that path. The last needs siblings of different names, since the first of two siblings of
one name hides the other.
-/

set_option autoImplicit false

namespace CommandTree.Tree

/-- A node with the path to it where the path starts with some more names. -/
def behind (front : List String) (entry : List String × Tree) : List String × Tree :=
  (front ++ entry.1, entry.2)

/-- Names in front of a path that has names in front are all in front of it. -/
theorem behind_behind (front front' : List String) (entry : List String × Tree) :
    behind front (behind front' entry) = behind (front ++ front') entry := by
  rw [behind, behind, behind, List.append_assoc]

mutual

/-- The nodes of a tree in pre-order, each with the names from the root to it. -/
def preorder : Tree → List (List String × Tree)
  | node name type children =>
    ([name], node name type children) :: (preorderAll children).map (behind [name])

/-- The same for the trees of a list, one behind the other. -/
def preorderAll : List Tree → List (List String × Tree)
  | [] => []
  | t :: ts => preorder t ++ preorderAll ts

end

/-- A tree comes first, and behind it come its descendants on paths through it. -/
theorem preorder_eq (t : Tree) :
    t.preorder = ([t.name], t) :: (preorderAll t.children).map (behind [t.name]) := by
  cases t
  rw [preorder]
  rfl

/-- The descendants of trees come tree by tree. -/
theorem preorderAll_eq_flatMap (ts : List Tree) : preorderAll ts = ts.flatMap preorder := by
  induction ts with
  | nil => rfl
  | cons t ts ih => rw [preorderAll, ih, List.flatMap_cons]

/-- A node comes among those of a list of trees if it comes among those of one of them. -/
theorem mem_preorderAll {entry : List String × Tree} {ts : List Tree} :
    entry ∈ preorderAll ts ↔ ∃ t ∈ ts, entry ∈ t.preorder := by
  rw [preorderAll_eq_flatMap, List.mem_flatMap]

/-! ## Walking -/

/-- Visiting the nodes that wait lists each of them with everything below it. -/
theorem visit_eq (waiting : List (List String × Tree)) :
    visit waiting =
      waiting.flatMap fun (path, t) => (path, t) :: (preorderAll t.children).map (behind path) := by
  fun_induction visit waiting with
  | case1 => rfl
  | case2 path t waiting ih =>
    have hchildren : (t.children.map fun c => (path ++ [c.name], c)).flatMap
        (fun (path, t) => (path, t) :: (preorderAll t.children).map (behind path)) =
          (preorderAll t.children).map (behind path) := by
      rw [preorderAll_eq_flatMap, List.flatMap_map, List.map_flatMap]
      congr 1
      funext c
      rw [preorder_eq, List.map_cons, List.map_map]
      simp only [Function.comp_def, behind_behind]
      rfl
    rw [ih, List.flatMap_append, hchildren, List.flatMap_cons, List.cons_append]

/-- A walk visits the nodes in pre-order, on their paths. -/
theorem walk_eq_preorder (t : Tree) : t.walk = t.preorder := by
  rw [walk, visit_eq, preorder_eq]
  exact List.append_nil _

/-! ## Numbers and lengths -/

mutual

/-- A tree has as many nodes in pre-order as are counted. -/
theorem length_preorder (t : Tree) : t.preorder.length = t.nodeCount := by
  cases t with
  | node name type children =>
    rw [preorder, List.length_cons, List.length_map, length_preorderAll, nodeCount, Nat.add_comm]

/-- Trees have as many nodes in pre-order as are counted. -/
theorem length_preorderAll (ts : List Tree) : (preorderAll ts).length = nodeCountAll ts := by
  cases ts with
  | nil => rfl
  | cons t ts =>
    rw [preorderAll, List.length_append, length_preorder, length_preorderAll, nodeCountAll]

end

mutual

/-- No path is longer than there are levels. -/
theorem length_le_depth {t : Tree} {entry : List String × Tree} (h : entry ∈ t.preorder) :
    entry.1.length ≤ t.depth := by
  cases t with
  | node name type children =>
    rw [preorder, List.mem_cons, List.mem_map] at h
    rw [depth]
    rcases h with rfl | ⟨below, hbelow, rfl⟩
    · exact Nat.le_add_right 1 _
    · have hle := length_le_depthAll hbelow
      simp only [behind, List.length_append, List.length_singleton]
      omega

/-- No path is longer than the trees are deep. -/
theorem length_le_depthAll {ts : List Tree} {entry : List String × Tree}
    (h : entry ∈ preorderAll ts) : entry.1.length ≤ depthAll ts := by
  cases ts with
  | nil => simp [preorderAll] at h
  | cons t ts =>
    rw [preorderAll, List.mem_append] at h
    rw [depthAll]
    rcases h with h | h
    · exact Nat.le_trans (length_le_depth h) (Nat.le_max_left _ _)
    · exact Nat.le_trans (length_le_depthAll h) (Nat.le_max_right _ _)

end

mutual

/-- Some path goes through all levels. -/
theorem exists_length_eq_depth (t : Tree) : ∃ entry ∈ t.preorder, entry.1.length = t.depth := by
  cases t with
  | node name type children =>
    rw [preorder, depth]
    by_cases hchildren : children = []
    · subst hchildren
      exact ⟨_, List.mem_cons_self, rfl⟩
    · obtain ⟨entry, hentry, hlength⟩ := exists_length_eq_depthAll hchildren
      refine ⟨behind [name] entry, List.mem_cons_of_mem _ (List.mem_map_of_mem hentry), ?_⟩
      rw [← hlength, behind, List.length_append, List.length_singleton]

/-- Some path is as long as the trees are deep. -/
theorem exists_length_eq_depthAll {ts : List Tree} (h : ts ≠ []) :
    ∃ entry ∈ preorderAll ts, entry.1.length = depthAll ts := by
  cases ts with
  | nil => contradiction
  | cons t ts =>
    rw [preorderAll, depthAll]
    by_cases hle : depthAll ts ≤ t.depth
    · obtain ⟨entry, hentry, hlength⟩ := exists_length_eq_depth t
      exact ⟨entry, List.mem_append_left _ hentry, by rw [hlength, Nat.max_eq_left hle]⟩
    · have hts : ts ≠ [] := by
        rintro rfl
        exact hle (Nat.zero_le _)
      obtain ⟨entry, hentry, hlength⟩ := exists_length_eq_depthAll hts
      refine ⟨entry, List.mem_append_right _ hentry, ?_⟩
      rw [hlength, Nat.max_eq_right (Nat.le_of_not_le hle)]

end

/-- The depth of a tree is the greatest length of a path. -/
theorem max?_lengths_preorder (t : Tree) :
    (t.preorder.map fun entry => entry.1.length).max? = some t.depth := by
  rw [List.max?_eq_some_iff]
  obtain ⟨entry, hentry, hlength⟩ := exists_length_eq_depth t
  refine ⟨hlength ▸ List.mem_map_of_mem hentry, fun n hn => ?_⟩
  obtain ⟨entry, hentry, rfl⟩ := List.mem_map.mp hn
  exact length_le_depth hentry

/-! ## Paths of different nodes -/

/-- A path in a tree starts with the name of its root, and goes on where it leads below it. -/
theorem mem_preorder {t n : Tree} {path : List String} :
    (path, n) ∈ t.preorder ↔
      (path = [t.name] ∧ n = t) ∨
        ∃ rest, path = t.name :: rest ∧ ∃ c ∈ t.children, (rest, n) ∈ c.preorder := by
  rw [preorder_eq, List.mem_cons, Prod.mk.injEq, List.mem_map]
  refine or_congr_right ⟨?_, ?_⟩
  · rintro ⟨⟨rest, below⟩, hmem, heq⟩
    obtain ⟨rfl, rfl⟩ := Prod.mk.inj heq
    exact ⟨rest, rfl, mem_preorderAll.mp hmem⟩
  · rintro ⟨rest, rfl, hmem⟩
    exact ⟨(rest, n), mem_preorderAll.mpr hmem, rfl⟩

/-- Every path starts with the name of the root. -/
theorem exists_rest_of_mem_preorder {t : Tree} {entry : List String × Tree}
    (h : entry ∈ t.preorder) : ∃ rest, entry.1 = t.name :: rest := by
  obtain ⟨path, n⟩ := entry
  rcases mem_preorder.mp h with ⟨rfl, -⟩ | ⟨rest, rfl, -⟩
  · exact ⟨[], rfl⟩
  · exact ⟨rest, rfl⟩

/-- The paths in trees of different names differ. -/
theorem disjoint_paths {t u : Tree} (h : t.name ≠ u.name) :
    (t.preorder.map Prod.fst).Disjoint (u.preorder.map Prod.fst) := by
  intro path ht hu
  obtain ⟨entry, hentry, rfl⟩ := List.mem_map.mp ht
  obtain ⟨entry', hentry', hsame⟩ := List.mem_map.mp hu
  obtain ⟨rest, hrest⟩ := exists_rest_of_mem_preorder hentry
  obtain ⟨rest', hrest'⟩ := exists_rest_of_mem_preorder hentry'
  rw [hrest, hrest', List.cons.injEq] at hsame
  exact h hsame.1.symm

/-- The siblings in a list of trees are distinct if they are in each of them. -/
theorem distinctAll_iff {ts : List Tree} : DistinctAll ts ↔ ∀ t ∈ ts, t.Distinct := by
  induction ts with
  | nil => simp [DistinctAll]
  | cons t ts ih => rw [DistinctAll, ih, List.forall_mem_cons]

mutual

/-- Where siblings differ in their names, every path leads to one node. -/
theorem nodup_paths {t : Tree} (h : t.Distinct) : (t.preorder.map Prod.fst).Nodup := by
  cases t with
  | node name type children =>
    obtain ⟨hnodup, hdistinct⟩ := h
    have hbelow := nodup_pathsAll hnodup hdistinct
    rw [preorder, List.map_cons, List.map_map, List.nodup_cons]
    refine ⟨?_, ?_⟩
    · -- paths to nodes below the root are longer than the path to the root
      intro hmem
      obtain ⟨entry, hentry, hsame⟩ := List.mem_map.mp hmem
      obtain ⟨c, -, hc⟩ := mem_preorderAll.mp hentry
      obtain ⟨rest, hrest⟩ := exists_rest_of_mem_preorder hc
      simp [behind, hrest] at hsame
    · have hfst : Prod.fst ∘ behind [name] = (name :: ·) ∘ Prod.fst := rfl
      rw [hfst, ← List.map_map]
      exact hbelow.map (List.cons_injective)

/-- Trees with distinct names and distinct siblings have each path once. -/
theorem nodup_pathsAll {ts : List Tree} (hnames : (ts.map name).Nodup) (h : DistinctAll ts) :
    ((preorderAll ts).map Prod.fst).Nodup := by
  cases ts with
  | nil => exact List.nodup_nil
  | cons t ts =>
    obtain ⟨hnew, hnames⟩ := List.nodup_cons.mp hnames
    rw [preorderAll, List.map_append]
    refine (nodup_paths h.1).append (nodup_pathsAll hnames h.2) ?_
    intro path ht hts
    obtain ⟨entry, hentry, rfl⟩ := List.mem_map.mp hts
    obtain ⟨u, hu, hentry⟩ := mem_preorderAll.mp hentry
    have hne : t.name ≠ u.name := fun hsame => hnew (hsame ▸ List.mem_map_of_mem hu)
    exact disjoint_paths hne ht (List.mem_map_of_mem hentry)

end

/-! ## Looking nodes up -/

/-- Where siblings are distinct, a child is found by its name. -/
theorem child?_eq_some_iff {t c : Tree} {name : String} (h : (t.children.map Tree.name).Nodup) :
    t.child? name = some c ↔ c ∈ t.children ∧ c.name = name := by
  unfold child?
  constructor
  · intro hfind
    exact ⟨List.mem_of_find?_eq_some hfind, by simpa using List.find?_some hfind⟩
  · rintro ⟨hc, hname⟩
    cases hfind : t.children.find? (·.name == name) with
    | none =>
      have hnone := List.find?_eq_none.mp hfind c hc
      simp [hname] at hnone
    | some first =>
      have hfirst : first.name = name := by simpa using List.find?_some hfind
      have hsame := List.inj_on_of_nodup_map h (List.mem_of_find?_eq_some hfind) hc
      rw [hsame (hfirst.trans hname.symm)]

/-- A path leads to the node that is listed with it. -/
theorem find?_eq_some_iff {t n : Tree} (h : t.Distinct) (path : List String) :
    t.find? path = some n ↔ (t.name :: path, n) ∈ t.preorder := by
  induction path generalizing t with
  | nil =>
    rw [find?, mem_preorder, Option.some.injEq]
    constructor
    · intro hsame
      exact Or.inl ⟨rfl, hsame.symm⟩
    · rintro (⟨-, rfl⟩ | ⟨rest, hrest, c, -, hmem⟩)
      · rfl
      · obtain rfl := (List.cons.inj hrest).2
        obtain ⟨rest', hrest'⟩ := exists_rest_of_mem_preorder hmem
        contradiction
  | cons name path ih =>
    obtain ⟨hnames, hbelow⟩ : (t.children.map Tree.name).Nodup ∧ DistinctAll t.children := by
      cases t
      exact h
    have hchild : ∀ c ∈ t.children,
        (c.find? path = some n ↔ (c.name :: path, n) ∈ c.preorder) :=
      fun c hc => ih (distinctAll_iff.mp hbelow c hc)
    rw [find?, Option.bind_eq_some_iff, mem_preorder]
    constructor
    · rintro ⟨c, hc, hfind⟩
      obtain ⟨hmem, rfl⟩ := (child?_eq_some_iff hnames).mp hc
      exact Or.inr ⟨_, rfl, c, hmem, (hchild c hmem).mp hfind⟩
    · rintro (⟨hpath, -⟩ | ⟨rest, hrest, c, hmem, hentry⟩)
      · simp at hpath
      · obtain rfl := (List.cons.inj hrest).2
        obtain ⟨rest', hrest'⟩ := exists_rest_of_mem_preorder hentry
        obtain ⟨rfl, rfl⟩ := List.cons.inj hrest'
        exact ⟨c, (child?_eq_some_iff hnames).mpr ⟨hmem, rfl⟩, (hchild c hmem).mpr hentry⟩

/-! ## All queries -/

/-- Walking a tree lists its nodes in pre-order, the list is as long as there are nodes, and its
longest path is as long as there are levels. If siblings have different names everywhere, so have
the nodes different paths, and a node is found at the end of a path exactly if it is listed with
that path behind the name of the root. -/
theorem queries_agree (t : Tree) :
    t.walk = t.preorder ∧ t.walk.length = t.nodeCount ∧
      (t.walk.map fun entry => entry.1.length).max? = some t.depth ∧
      (t.Distinct → (t.walk.map Prod.fst).Nodup ∧
        ∀ path n, t.find? path = some n ↔ (t.name :: path, n) ∈ t.walk) := by
  rw [walk_eq_preorder]
  refine ⟨rfl, length_preorder t, max?_lengths_preorder t, ?_⟩
  intro h
  exact ⟨nodup_paths h, fun path _ => find?_eq_some_iff h path⟩

/-- Two leaves of one name below different nodes are found by their own paths. -/
theorem queries_agree_on_cousins :
    let x := node "x" (some .bool) []
    let y := node "x" none []
    let t := node "r" none [node "a" none [x], node "b" none [y]]
    t.Distinct ∧ (t.walk.map Prod.fst).Nodup ∧ (["r", "a", "x"], x) ∈ t.walk ∧
      (["r", "b", "x"], y) ∈ t.walk := by
  intro x y t
  have h : t.Distinct := by simp [t, x, y, Distinct, DistinctAll, name]
  obtain ⟨hnodup, hfind⟩ := (queries_agree t).2.2.2 h
  exact ⟨h, hnodup, (hfind ["a", "x"] x).mp rfl, (hfind ["b", "x"] y).mp rfl⟩

end CommandTree.Tree
