import CommandTree.FileSystem
import Mathlib.Data.List.Basic
import Mathlib.Data.List.Lex

/-!
# The order of paths

Paths are compared component by component and not character by character: `a/b` comes before `a.x`,
although the text of it does not, because the name `a` comes before the name `a.x`. A path names the
same components with and without doubled slashes and dots in the middle.

The path of what a directory lists has the components of the directory and then one more for the
name. So names lead from a directory to paths of which the components are known, different names to
different paths.
-/

set_option autoImplicit false

namespace CommandTree

/-- What stands between the slashes of a path. -/
inductive PathComponent where
  /-- The start of all paths. -/
  | root
  /-- The directory where relative paths start, which counts at the start of a path only. -/
  | current
  /-- The directory above. -/
  | parent
  /-- An entry of a directory. -/
  | name (text : String)

namespace PathComponent

/-- The components are of four sorts. -/
def rank : PathComponent → Nat
  | root => 0
  | current => 1
  | parent => 2
  | name _ => 3

/-- The component `a` comes before the component `b`. -/
def Before (a b : PathComponent) : Prop :=
  match a, b with
  | name text, name text' => text < text'
  | _, _ => a.rank < b.rank

/-- No component comes before itself. -/
theorem not_before_self (a : PathComponent) : ¬ a.Before a := by
  cases a with
  | name text => exact String.lt_irrefl text
  | root => exact Nat.lt_irrefl 0
  | current => exact Nat.lt_irrefl 1
  | parent => exact Nat.lt_irrefl 2

/-- The component that a part of a path stands for, if it is one. -/
def ofPart? (part : List Char) : Option PathComponent :=
  if part = [] ∨ part = ['.'] then none
  else if part = ['.', '.'] then some parent
  else some (name (String.ofList part))

/-- What a path starts with apart from the components that its parts stand for. -/
def lead : List (List Char) → List PathComponent
  | [] :: _ :: _ => [root]
  | ['.'] :: _ => [current]
  | _ => []

end PathComponent

namespace FileSystem

open PathComponent

/-- The components of a path. -/
def components (path : String) : List PathComponent :=
  lead (Split.parts '/' path.toList) ++ (Split.parts '/' path.toList).filterMap ofPart?

/-- The path `path` comes before the path `other`. -/
def PathBefore (path other : String) : Prop :=
  List.Lex Before (components path) (components other)

/-- The text can be the name of an entry in a directory. -/
structure IsFileName (text : String) : Prop where
  /-- There is something in it. -/
  ne_empty : text ≠ ""
  /-- A slash would end it. -/
  slash_notMem : '/' ∉ text.toList
  /-- A dot stands for the directory. -/
  ne_dot : text ≠ "."
  /-- Two dots stand for the directory above. -/
  ne_dots : text ≠ ".."

instance (text : String) : Decidable (IsFileName text) :=
  decidable_of_iff (text ≠ "" ∧ '/' ∉ text.toList ∧ text ≠ "." ∧ text ≠ "..")
    ⟨fun ⟨hempty, hslash, hdot, hdots⟩ => ⟨hempty, hslash, hdot, hdots⟩,
      fun ⟨hempty, hslash, hdot, hdots⟩ => ⟨hempty, hslash, hdot, hdots⟩⟩

/-- The path to which names lead from a directory. -/
def descend (path : String) (names : List String) : String := names.foldl child path

/-- No path comes before itself. -/
theorem not_pathBefore_self (path : String) : ¬ PathBefore path path :=
  List.lex_irrefl not_before_self _

variable {path name : String} {names names' : List String}

/-- The name of a file has no slash to be split at. -/
theorem IsFileName.parts (h : IsFileName name) :
    Split.parts '/' name.toList = [name.toList] :=
  Split.parts_of_notMem h.slash_notMem

/-- The name of a file is a component of a path under that name. -/
theorem IsFileName.ofPart? (h : IsFileName name) :
    PathComponent.ofPart? name.toList = some (.name name) := by
  have hne : ∀ text : String, name ≠ text → name.toList ≠ text.toList :=
    fun _ hne heq => hne (String.toList_inj.mp heq)
  have hdot : ¬ (name.toList = [] ∨ name.toList = ['.']) :=
    not_or.mpr ⟨hne "" h.ne_empty, hne "." h.ne_dot⟩
  have hdots : name.toList ≠ ['.', '.'] := hne ".." h.ne_dots
  rw [PathComponent.ofPart?, if_neg hdot, if_neg hdots, String.ofList_toList]

/-- A path that ends in a slash is another path with a slash behind it. -/
theorem endsWith_slash_iff (path : String) :
    path.endsWith "/" = true ↔ ∃ base, path = base ++ "/" := by
  rw [String.endsWith_eq_endsWith_toSlice, String.Slice.endsWith_string_iff,
    List.suffix_iff_exists_append_eq]
  constructor
  · rintro ⟨base, hbase⟩
    refine ⟨String.ofList base, String.toList_inj.mp ?_⟩
    simpa using hbase.symm
  · rintro ⟨base, rfl⟩
    exact ⟨base.toList, by simp⟩

/-- What a directory lists has a name that follows a slash. -/
theorem exists_child_eq (path : String) :
    ∃ base, ∀ name, child path name = base ++ "/" ++ name := by
  by_cases hslash : path.endsWith "/" = true
  · obtain ⟨base, rfl⟩ := (endsWith_slash_iff path).mp hslash
    exact ⟨base, fun name => if_pos hslash⟩
  · exact ⟨path, fun name => if_neg hslash⟩

/-- A slash between two paths adds no part to those of the two. -/
theorem parts_slash (base : String) (text : String) :
    Split.parts '/' (base ++ "/" ++ text).toList =
      Split.parts '/' base.toList ++ Split.parts '/' text.toList := by
  rw [String.toList_append, String.toList_append, List.append_assoc]
  exact Split.parts_append '/' _ _

/-- A path that ends in the name of a file does not end in a slash. -/
theorem IsFileName.not_endsWith_slash (h : IsFileName name) (base : String) :
    ¬ (base ++ "/" ++ name).endsWith "/" = true := by
  rw [endsWith_slash_iff]
  rintro ⟨base', hbase⟩
  have hparts := congrArg (fun path => Split.parts '/' path.toList) hbase
  rw [← @String.append_empty (base' ++ "/")] at hparts
  simp only [parts_slash, h.parts] at hparts
  have hlast := (List.append_inj' hparts rfl).2
  exact h.ne_empty (String.toList_inj.mp (List.cons.inj hlast).1)

/-- What a path of several parts starts with depends on the first part alone. -/
theorem lead_cons (first : List Char) {others : List (List Char)} (hne : others ≠ []) :
    lead (first :: others) =
      if first = [] then [root] else if first = ['.'] then [current] else [] := by
  obtain ⟨second, others, rfl⟩ := List.exists_cons_of_ne_nil hne
  unfold lead
  split
  · rename_i heq
    rw [if_pos (List.cons.inj heq).1]
  · rename_i heq
    rw [(List.cons.inj heq).1]
    rfl
  · simp_all

/-- Behind a first part it does not matter which parts there are. -/
theorem lead_append {parts others others' : List (List Char)} (hne : parts ≠ [])
    (hothers : others ≠ []) (hothers' : others' ≠ []) :
    lead (parts ++ others) = lead (parts ++ others') := by
  obtain ⟨first, rest, rfl⟩ := List.exists_cons_of_ne_nil hne
  rw [List.cons_append, List.cons_append,
    lead_cons first (List.append_ne_nil_of_right_ne_nil rest hothers),
    lead_cons first (List.append_ne_nil_of_right_ne_nil rest hothers')]

/-- A name after a slash is one more component. -/
theorem components_slash (base : String) (h : IsFileName name) :
    components (base ++ "/" ++ name) = components (base ++ "/") ++ [.name name] := by
  have hbase := parts_slash base ""
  rw [String.append_empty] at hbase
  have hlead : lead (Split.parts '/' base.toList ++ Split.parts '/' "".toList) =
      lead (Split.parts '/' base.toList ++ [name.toList]) :=
    lead_append (Split.parts_ne_nil '/' base.toList) (by simp) (by simp)
  have hlast : [name.toList].filterMap PathComponent.ofPart? = [.name name] := by
    rw [List.filterMap_cons_some h.ofPart?, List.filterMap_nil]
  rw [components, components, hbase, parts_slash, h.parts, hlead, List.filterMap_append,
    List.filterMap_append, hlast, List.append_assoc, List.append_assoc]
  rfl

/-- The components of what a directory lists: those of the directory, and the name. -/
theorem components_child (path : String) (h : IsFileName name) :
    components (child path name) = components (child path "") ++ [.name name] := by
  obtain ⟨base, hchild⟩ := exists_child_eq path
  rw [hchild, hchild, String.append_empty, components_slash base h]

/-- A slash behind a name is no component. -/
theorem components_child_child (path : String) (h : IsFileName name) :
    components (child (child path name) "") = components (child path name) := by
  obtain ⟨base, hchild⟩ := exists_child_eq path
  have hslash : child (base ++ "/" ++ name) "" = base ++ "/" ++ name ++ "/" ++ "" :=
    if_neg (h.not_endsWith_slash base)
  have hlead : lead (Split.parts '/' base.toList ++ ([name.toList] ++ Split.parts '/' "".toList)) =
      lead (Split.parts '/' base.toList ++ [name.toList]) :=
    lead_append (Split.parts_ne_nil '/' base.toList) (by simp) (by simp)
  have hlast : (Split.parts '/' "".toList).filterMap ofPart? = [] := rfl
  rw [hchild, hslash, components, components, parts_slash, parts_slash, h.parts, List.append_assoc,
    hlead, List.filterMap_append, List.filterMap_append, List.filterMap_append, hlast,
    List.append_nil]

/-- The components of what names lead to: those of the directory, and the names. -/
theorem components_descend (path : String) (hne : names ≠ [])
    (h : ∀ name ∈ names, IsFileName name) :
    components (descend path names) = components (child path "") ++ names.map .name := by
  induction names generalizing path with
  | nil => contradiction
  | cons name names ih =>
    obtain ⟨hname, hnames⟩ := List.forall_mem_cons.mp h
    rw [descend, List.foldl_cons, List.map_cons]
    cases names with
    | nil => exact components_child path hname
    | cons next names =>
      have hrest := ih (child path name) (List.cons_ne_nil next names) hnames
      rw [components_child_child path hname, components_child path hname] at hrest
      exact hrest.trans (List.append_assoc _ _ _)

/-- Different names lead to different paths. -/
theorem descend_inj (hne : names ≠ []) (hne' : names' ≠ []) (h : ∀ name ∈ names, IsFileName name)
    (h' : ∀ name ∈ names', IsFileName name) (heq : descend path names = descend path names') :
    names = names' := by
  have hboth := congrArg components heq
  rw [components_descend path hne h, components_descend path hne' h'] at hboth
  exact List.map_injective_iff.mpr (fun _ _ => PathComponent.name.inj)
    (List.append_cancel_left hboth)

/-- Below a directory, what has the smaller name comes first, with all that is below it. -/
theorem pathBefore_descend (path : String) {name name' : String} (hlt : name < name')
    (h : ∀ text ∈ name :: names, IsFileName text) (h' : ∀ text ∈ name' :: names', IsFileName text) :
    PathBefore (descend path (name :: names)) (descend path (name' :: names')) := by
  rw [PathBefore, components_descend path (List.cons_ne_nil name names) h,
    components_descend path (List.cons_ne_nil name' names') h']
  have hbefore : PathComponent.Before (.name name) (.name name') := hlt
  exact List.Lex.append_left Before (.rel hbefore) _

end FileSystem

end CommandTree
