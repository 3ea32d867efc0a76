import ClassMetrics.Hierarchy.ClassTable
import ClassMetrics.Hierarchy.Remaining

/-!
The graph of parents and children. A class is a child of its superclass and of the interfaces that
it names, as far as they are in the table; the root class is nobody's child by an interface.
Depths are those of a walk from the root that takes children in the order of their names and stays
with the first path that leads to a class.
-/

namespace ClassMetrics

/-- The parents of a class that are in the table: its superclass and, unless it is the root, its
interfaces. One that is both stands there twice. -/
def ClassTable.parents (table : ClassTable) (header : ClassHeader) : List String :=
  let interfaces := if header.isRoot then [] else header.interfaces.toList
  (header.super?.toList ++ interfaces).filter table.contains

/-- Lists of children, by the parent's name. -/
abbrev ChildLists := Ordered (Prod.fst : String × List String → String)

namespace ChildLists

/-- The list under a name. A parent that has none yet has an empty one. -/
def of (lists : ChildLists) (parent : String) : List String :=
  ((lists.find? parent).map Prod.snd).getD []

/-- Puts a child behind those that its parent has. -/
def push (lists : ChildLists) (child parent : String) : ChildLists :=
  lists.insert (parent, lists.of parent ++ [child])

/-- Names in order, without repetitions. -/
def sortedOnce (names : List String) : List String :=
  (names.mergeSort fun name other => decide (name ≤ other)).eraseReps

/-- Puts every list in order. -/
def sorted (lists : ChildLists) : ChildLists :=
  lists.update (fun (parent, children) => (parent, sortedOnce children)) fun _ => rfl

end ChildLists

/-- Parents with their children, both in the order of their names. -/
structure ClassGraph where
  childLists : ChildLists
  deriving DecidableEq, Repr

/-- Recorded depths, by class name. -/
abbrev Depths := Ordered (Prod.fst : String × Nat → String)

namespace ClassGraph

/-- Every class is put to the children of its parents, and the lists of children in order. -/
def ofTable (table : ClassTable) : ClassGraph where
  childLists := ChildLists.sorted <| table.toList.foldl
    (fun lists header => (table.parents header).foldl (·.push header.name) lists) Ordered.empty

/-- The children of a class, in the order of their names. -/
def children (graph : ClassGraph) (name : String) : List String :=
  graph.childLists.of name

def edgeCount (graph : ClassGraph) : Nat :=
  (graph.childLists.toList.map fun (_, children) => children.length).foldr (· + ·) 0

def parentNames (graph : ClassGraph) : List String :=
  graph.childLists.keys

theorem children_eq_nil {graph : ClassGraph} {name : String} (h : name ∉ graph.parentNames) :
    graph.children name = [] := by
  have hmissing : graph.childLists.find? name = none := by
    apply List.find?_eq_none.2
    intro item hitem hname
    exact h (List.mem_map.2 ⟨item, hitem, eq_of_beq hname⟩)
  rw [children, ChildLists.of, hmissing]
  rfl

/-- Walks on from the pending classes, each with the depth it is reached at. The root and classes
that were found before are passed over; a class found now has its children looked at next. -/
def explore (graph : ClassGraph) (found : List (String × Nat)) :
    List (String × Nat) → List (String × Nat)
  | [] => found
  | (name, depth) :: pending =>
      if name = rootName ∨ name ∈ found.map Prod.fst then explore graph found pending
      else
        explore graph ((name, depth) :: found)
          ((graph.children name).map (fun child => (child, depth + 1)) ++ pending)
termination_by pending => (remaining graph.parentNames (found.map Prod.fst), pending.length)
decreasing_by
  · apply Prod.Lex.right
    simp
  · next hnew =>
      have hseen : name ∉ found.map Prod.fst := fun h => hnew (Or.inr h)
      by_cases hparent : name ∈ graph.parentNames
      · exact Prod.Lex.left _ _ (remaining_cons_lt hparent hseen)
      · have hle := remaining_cons_le graph.parentNames (found.map Prod.fst) name
        rw [children_eq_nil hparent]
        simp only [List.map_nil, List.nil_append, List.map_cons, List.length_cons]
        rcases Nat.lt_or_eq_of_le hle with hlt | heq
        · exact Prod.Lex.left _ _ hlt
        · rw [heq]
          exact Prod.Lex.right _ (Nat.lt_succ_self _)

/-- The depth of every class below the root. The root is at depth 1 and is not recorded. -/
def depths (graph : ClassGraph) : Depths :=
  Ordered.ofList (graph.explore [] ((graph.children rootName).map fun child => (child, 2)))

end ClassGraph

namespace Depths

/-- The greatest depth, or -1 if none is recorded. -/
def maximum (depths : Depths) : Int :=
  match (depths.toList.map Prod.snd).max? with
  | some depth => depth
  | none => -1

/-- The sum of all depths. -/
def total (depths : Depths) : Nat :=
  (depths.toList.map Prod.snd).foldr (· + ·) 0

end Depths

end ClassMetrics
