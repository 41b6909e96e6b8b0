import CommandTree.Tree.Draft

/-!
# What a draft is built into

A draft stands for the tree of the same shape, `Draft.assemble`, and building it is a search through
its nodes in pre-order for one that has the name of a sibling before it. `Draft.places` lists the
nodes below the root in that order, each with the names that it is compared with, and `judge` says
what such a list comes to: the first place that repeats a name is reported, and without one there is
the tree.

The search may be cut into pieces because a list of places is judged piece by piece. So a child that
is added behind the others is judged last, which says what comes of adding one to the draft of a
tree that exists.
-/

set_option autoImplicit false

namespace CommandTree.Draft

mutual

/-- The tree of a draft, whatever the names of siblings are. -/
def assemble : Draft → Tree
  | node name type children => .node name type (assembleAll children)

/-- The trees of drafts, in their order. -/
def assembleAll : List Draft → List Tree
  | [] => []
  | d :: ds => assemble d :: assembleAll ds

end

mutual

/-- No two siblings anywhere in the draft share a name. -/
def Distinct : Draft → Prop
  | node _ _ children => (children.map name).Nodup ∧ DistinctAll children

/-- Every draft of a list has distinct siblings throughout. -/
def DistinctAll : List Draft → Prop
  | [] => True
  | d :: ds => Distinct d ∧ DistinctAll ds

end

/-- A node below the root of a draft, among its siblings. -/
structure Place where
  /-- The name of the node above it. -/
  parent : String
  /-- The names of the siblings before it, nearest first. -/
  earlier : List String
  /-- Its own name. -/
  name : String

namespace Place

/-- Whether a sibling before the node has its name. -/
def repeats (p : Place) : Bool := p.earlier.contains p.name

/-- A place repeats a name if a sibling before it has that name. -/
theorem repeats_iff {p : Place} : p.repeats = true ↔ p.name ∈ p.earlier := List.contains_iff_mem

end Place

mutual

/-- The nodes below the root of a draft in pre-order. -/
def places : Draft → List Place
  | node name _ children => placesAll name [] children

/-- The nodes of drafts under `parent` that follow siblings of the names `earlier`, in pre-order. -/
def placesAll (parent : String) (earlier : List String) : List Draft → List Place
  | [] => []
  | d :: ds => ⟨parent, earlier, d.name⟩ :: (places d ++ placesAll parent (d.name :: earlier) ds)

end

/-! ## Judging places -/

/-- A value, unless some place repeats a name. -/
def judge {α : Type} (value : α) (places : List Place) : Except DuplicateChild α :=
  match places.find? Place.repeats with
  | none => .ok value
  | some p => .error ⟨p.parent, p.name⟩

section

variable {α β : Type} {value : α} {p : Place} {ps qs : List Place}

/-- A value is refused for its first place if that one repeats a name. -/
theorem judge_cons_of_mem (h : p.name ∈ p.earlier) :
    judge value (p :: ps) = .error ⟨p.parent, p.name⟩ := by
  rw [judge, List.find?_cons_of_pos (Place.repeats_iff.mpr h)]

/-- A place that repeats no name does not matter. -/
theorem judge_cons_of_notMem (h : p.name ∉ p.earlier) :
    judge value (p :: ps) = judge value ps := by
  rw [judge, List.find?_cons_of_neg (mt Place.repeats_iff.mp h), judge]

/-- The places in front are judged first. -/
theorem judge_append (value : α) (f : α → β) (ps qs : List Place) :
    judge (f value) (ps ++ qs) = judge value ps >>= fun a => judge (f a) qs := by
  rw [judge, judge, List.find?_append]
  cases ps.find? Place.repeats <;> rfl

/-- Judging does not depend on what the value is. -/
theorem map_judge (f : α → β) (value : α) (ps : List Place) :
    (judge value ps).map f = judge (f value) ps := by
  rw [judge, judge]
  cases ps.find? Place.repeats <;> rfl

/-- A value stands exactly if no place repeats a name. -/
theorem judge_eq_ok_iff {a : α} :
    judge value ps = .ok a ↔ (∀ p ∈ ps, p.name ∉ p.earlier) ∧ a = value := by
  have hnone : ps.find? Place.repeats = none ↔ ∀ p ∈ ps, p.name ∉ p.earlier := by
    simp only [List.find?_eq_none, Place.repeats_iff]
  rw [judge, ← hnone]
  cases ps.find? Place.repeats with
  | none => simp [eq_comm]
  | some p => simp

/-- The first place that repeats a name is reported. -/
theorem judge_eq_error_iff {e : DuplicateChild} :
    judge value ps = .error e ↔ ∃ before p after, ps = before ++ p :: after ∧
      (∀ q ∈ before, q.name ∉ q.earlier) ∧ p.name ∈ p.earlier ∧ e = ⟨p.parent, p.name⟩ := by
  constructor
  · intro h
    cases hfind : ps.find? Place.repeats with
    | none => simp [judge, hfind] at h
    | some p =>
      obtain ⟨hp, before, after, rfl, hbefore⟩ := List.find?_eq_some_iff_append.mp hfind
      refine ⟨before, p, after, rfl, fun q hq hmem => ?_, Place.repeats_iff.mp hp, ?_⟩
      · simpa [Place.repeats_iff.mpr hmem] using hbefore q hq
      · rw [judge, hfind] at h
        exact (Except.error.inj h).symm
  · rintro ⟨before, p, after, rfl, hbefore, hp, rfl⟩
    have hok : judge value before = .ok value := judge_eq_ok_iff.mpr ⟨hbefore, rfl⟩
    have happend : judge value (before ++ p :: after) =
        judge value before >>= fun a => judge a (p :: after) := judge_append value id before _
    rw [happend, hok]
    exact judge_cons_of_mem hp

end

/-! ## Building is judging -/

/-- Building a node is to build its children under it. -/
theorem build_node (name : String) (type : Option ArgType) (children : List Draft) :
    build (node name type children) = (buildAll name [] children).map (.node name type) := by
  rw [build]
  cases buildAll name [] children <;> rfl

/-- A draft with a name that was seen is a duplicate. -/
theorem buildAll_of_mem {parent : String} {seen : List String} {d : Draft} (h : d.name ∈ seen)
    (ds : List Draft) : buildAll parent seen (d :: ds) = .error ⟨parent, d.name⟩ := by
  rw [buildAll, if_pos h]

/-- A draft with a new name is built, and the others with that name seen. -/
theorem buildAll_of_notMem {parent : String} {seen : List String} {d : Draft} (h : d.name ∉ seen)
    (ds : List Draft) :
    buildAll parent seen (d :: ds) =
      build d >>= fun t => (buildAll parent (d.name :: seen) ds).map (t :: ·) := by
  rw [buildAll, if_neg h]
  cases build d with
  | error e => rfl
  | ok t =>
    show _ = (buildAll parent (d.name :: seen) ds).map (t :: ·)
    cases buildAll parent (d.name :: seen) ds <;> rfl

mutual

/-- Building a draft comes to judging its places in pre-order. -/
theorem build_eq_judge (b : Draft) : b.build = judge b.assemble b.places := by
  cases b with
  | node name type children =>
    rw [build_node, buildAll_eq_judge, map_judge, assemble, places]

/-- Building siblings comes to judging their places in pre-order. -/
theorem buildAll_eq_judge (parent : String) (seen : List String) (ds : List Draft) :
    buildAll parent seen ds = judge (assembleAll ds) (placesAll parent seen ds) := by
  cases ds with
  | nil => rfl
  | cons d ds =>
    rw [placesAll, assembleAll]
    by_cases h : d.name ∈ seen
    · rw [buildAll_of_mem h, judge_cons_of_mem h]
    · rw [buildAll_of_notMem h, judge_cons_of_notMem h,
        judge_append d.assemble (· :: assembleAll ds), build_eq_judge, buildAll_eq_judge]
      simp only [map_judge]

end

/-! ## Distinct siblings -/

mutual

/-- Siblings are distinct throughout exactly if no place repeats a name. -/
theorem distinct_iff (b : Draft) : b.Distinct ↔ ∀ p ∈ b.places, p.name ∉ p.earlier := by
  cases b with
  | node name type children =>
    have hchildren := distinctAll_iff name [] children
    simp only [List.not_mem_nil, not_false_eq_true, implies_true, true_and] at hchildren
    rw [places, Distinct, ← hchildren]

/-- Siblings are distinct throughout, and differ from those before, exactly if no place repeats a
name. -/
theorem distinctAll_iff (parent : String) (earlier : List String) (ds : List Draft) :
    ((∀ d ∈ ds, d.name ∉ earlier) ∧ (ds.map name).Nodup ∧ DistinctAll ds) ↔
      ∀ p ∈ placesAll parent earlier ds, p.name ∉ p.earlier := by
  cases ds with
  | nil => simp [placesAll, DistinctAll]
  | cons d ds =>
    have hnew : (∀ x ∈ ds, x.name ∉ d.name :: earlier) ↔
        d.name ∉ ds.map name ∧ ∀ x ∈ ds, x.name ∉ earlier := by
      simp only [List.mem_cons, not_or, forall_and, List.mem_map, not_exists, not_and]
    have hfirst : (∀ p ∈ placesAll parent earlier (d :: ds), p.name ∉ p.earlier) ↔
        d.name ∉ earlier ∧ d.Distinct ∧
          ∀ p ∈ placesAll parent (d.name :: earlier) ds, p.name ∉ p.earlier := by
      rw [distinct_iff d, ← List.forall_mem_append, placesAll]
      exact List.forall_mem_cons
    rw [hfirst, ← distinctAll_iff parent (d.name :: earlier) ds, hnew, List.forall_mem_cons,
      List.map_cons, List.nodup_cons, DistinctAll]
    constructor
    · rintro ⟨⟨hd, hds⟩, ⟨hother, hnodup⟩, hdistinct, hdistinctAll⟩
      exact ⟨hd, hdistinct, ⟨hother, hds⟩, hnodup, hdistinctAll⟩
    · rintro ⟨hd, hdistinct, ⟨hother, hds⟩, hnodup, hdistinctAll⟩
      exact ⟨⟨hd, hds⟩, ⟨hother, hnodup⟩, hdistinct, hdistinctAll⟩

end

/-- A draft is built exactly if no two siblings share a name, and into the tree of its shape. -/
theorem build_eq_ok_iff {b : Draft} {t : Tree} :
    b.build = .ok t ↔ b.Distinct ∧ t = b.assemble := by
  rw [build_eq_judge, judge_eq_ok_iff, ← distinct_iff]

/-! ## Drafts and trees of one shape -/

/-- Assembling a draft keeps its name. -/
theorem name_assemble (b : Draft) : b.assemble.name = b.name := by
  cases b
  rfl

/-- Assembling drafts keeps their names. -/
theorem map_name_assembleAll (ds : List Draft) :
    (assembleAll ds).map Tree.name = ds.map name := by
  induction ds with
  | nil => rfl
  | cons d ds ih => rw [assembleAll, List.map_cons, List.map_cons, ih, name_assemble]

mutual

/-- Assembling a draft keeps whether its siblings are distinct. -/
theorem distinct_assemble (b : Draft) : b.assemble.Distinct ↔ b.Distinct := by
  cases b with
  | node name type children =>
    rw [assemble, Tree.Distinct, Distinct, map_name_assembleAll, distinct_assembleAll]

/-- Assembling drafts keeps whether their siblings are distinct. -/
theorem distinct_assembleAll (ds : List Draft) :
    Tree.DistinctAll (assembleAll ds) ↔ DistinctAll ds := by
  cases ds with
  | nil => rfl
  | cons d ds =>
    rw [assembleAll, Tree.DistinctAll, DistinctAll, distinct_assemble, distinct_assembleAll]

end

mutual

/-- The draft of a tree is assembled to that tree. -/
theorem assemble_ofTree (t : Tree) : (ofTree t).assemble = t := by
  cases t with
  | node name type children => rw [ofTree, assemble, assembleAll_ofTrees]

/-- The drafts of trees are assembled to these trees. -/
theorem assembleAll_ofTrees (ts : List Tree) : assembleAll (ofTrees ts) = ts := by
  cases ts with
  | nil => rfl
  | cons t ts => rw [ofTrees, assembleAll, assemble_ofTree, assembleAll_ofTrees]

end

/-- Building a draft keeps the names of siblings apart. -/
theorem distinct_of_build {d : Draft} {t : Tree} (h : d.build = .ok t) :
    t.Distinct ∧ t.name = d.name := by
  obtain ⟨hdistinct, rfl⟩ := build_eq_ok_iff.mp h
  exact ⟨(distinct_assemble d).mpr hdistinct, name_assemble d⟩

/-- The draft of a tree is built into that tree. -/
theorem build_ofTree {t : Tree} (h : t.Distinct) : (ofTree t).build = .ok t := by
  rw [build_eq_ok_iff, ← distinct_assemble, assemble_ofTree]
  exact ⟨h, rfl⟩

/-! ## Adding a child -/

/-- A further draft has its own place behind all others, and behind it those below it. -/
theorem placesAll_append (parent : String) (earlier : List String) (ds : List Draft) (c : Draft) :
    placesAll parent earlier (ds ++ [c]) =
      placesAll parent earlier ds ++
        ⟨parent, (ds.map name).reverse ++ earlier, c.name⟩ :: c.places := by
  induction ds generalizing earlier with
  | nil => simp [placesAll]
  | cons d ds ih => simp [placesAll, ih]

/-- A further draft is assembled behind the others. -/
theorem assembleAll_append (ds : List Draft) (c : Draft) :
    assembleAll (ds ++ [c]) = assembleAll ds ++ [c.assemble] := by
  induction ds with
  | nil => rfl
  | cons d ds ih => rw [List.cons_append, assembleAll, ih, assembleAll, List.cons_append]

/-- A child that is added is looked at after everything that was there before. -/
theorem build_andThen (b c : Draft) :
    (b.andThen c).build = b.build >>= fun t =>
      if c.name ∈ t.children.map Tree.name then .error ⟨t.name, c.name⟩
      else c.build.map fun child => .node t.name t.type (t.children ++ [child]) := by
  obtain ⟨name, type, children⟩ := b
  let place : Place := ⟨name, (children.map Draft.name).reverse ++ [], c.name⟩
  let add (t : Tree) : Tree := .node t.name t.type (t.children ++ [c.assemble])
  have happend : ((node name type children).andThen c).build =
      (node name type children).build >>= fun t => judge (add t) (place :: c.places) := by
    rw [andThen, build_eq_judge, build_eq_judge, places, assemble, assemble, places,
      placesAll_append, assembleAll_append]
    exact judge_append (Tree.node name type (assembleAll children)) add _ _
  rw [happend]
  cases hbuild : (node name type children).build with
  | error e => rfl
  | ok t =>
    obtain rfl := (build_eq_ok_iff.mp hbuild).2
    show judge _ (place :: c.places) =
      if c.name ∈ (assembleAll children).map Tree.name then _ else _
    rw [map_name_assembleAll]
    by_cases hmem : c.name ∈ children.map Draft.name
    · rw [if_pos hmem, judge_cons_of_mem (by simpa [place] using hmem)]
      rfl
    · rw [if_neg hmem, judge_cons_of_notMem (by simpa [place] using hmem), build_eq_judge,
        map_judge]

/-! ## What building comes to -/

/-- A draft is built exactly if nowhere in it two siblings share a name, and then into the tree of
its shape. Otherwise the first node in pre-order that has the name of a sibling before it is
reported with the node above it. The draft of a tree with distinct siblings is built into that tree
again. With one more child it is refused if the name is taken, whatever is below the child, and
otherwise it comes to what the child comes to, behind the children that there were. -/
theorem build_finds_first_duplicate :
    (∀ b : Draft,
      (∀ t, b.build = .ok t ↔ b.Distinct ∧ t = b.assemble) ∧
      ∀ e, b.build = .error e ↔ ∃ before p after, b.places = before ++ p :: after ∧
        (∀ q ∈ before, q.name ∉ q.earlier) ∧ p.name ∈ p.earlier ∧ e = ⟨p.parent, p.name⟩) ∧
    ∀ t : Tree, t.Distinct →
      (ofTree t).build = .ok t ∧
      ∀ c : Draft, ((ofTree t).andThen c).build =
        if c.name ∈ t.children.map Tree.name then .error ⟨t.name, c.name⟩
        else c.build.map fun child => .node t.name t.type (t.children ++ [child]) := by
  refine ⟨fun b => ⟨fun t => build_eq_ok_iff, fun e => ?_⟩, fun t h => ⟨build_ofTree h, ?_⟩⟩
  · rw [build_eq_judge]
    exact judge_eq_error_iff
  · intro c
    rw [build_andThen, build_ofTree h]
    rfl

/-- Two children are added to a tree, the one with a name that is taken and the other with two
children of one name. -/
theorem build_finds_first_duplicate_added :
    let t := Tree.node "r" none [.node "a" (some .bool) []]
    let inner := [literal "x", literal "y", literal "x", literal "y"]
    t.Distinct ∧
      ((ofTree t).andThen (node "a" none inner)).build = .error ⟨"r", "a"⟩ ∧
      ((ofTree t).andThen (node "b" none inner)).build = .error ⟨"b", "x"⟩ := by
  intro t inner
  have h : t.Distinct := by simp [t, Tree.Distinct, Tree.DistinctAll]
  obtain ⟨-, hadded⟩ := build_finds_first_duplicate.2 t h
  have hinner : (node "b" none inner).build = .error ⟨"b", "x"⟩ := by
    simp [inner, build, buildAll, literal, name]
  refine ⟨h, (hadded _).trans (if_pos (by decide)), (hadded _).trans ?_⟩
  rw [if_neg (by decide), hinner]
  rfl

end CommandTree.Draft
