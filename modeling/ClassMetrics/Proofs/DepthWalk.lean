import Mathlib
import ClassMetrics.Hierarchy.ClassGraph
import ClassMetrics.Proofs.Lookup

/-!
The walk from the root, turn by turn. Each turn takes one edge of the graph, and no edge is taken
twice, so the walk has come to its end after as many turns as there are edges.
-/

namespace ClassMetrics

section Turns

variable {State : Type} {turn : State → State} {done : State → Prop} {measure : State → Nat}
  {state : State}

/-- What goes down with every turn until all is done says after how many turns this is. -/
theorem done_iterate (hfixed : ∀ state, done state → turn state = state)
    (hless : ∀ state, ¬done state → measure (turn state) < measure state) {count : Nat}
    (h : measure state ≤ count) : done (turn^[count] state) := by
  induction count generalizing state with
  | zero =>
      by_contra hopen
      have hturn := hless state hopen
      omega
  | succ count ih =>
      rw [Function.iterate_succ_apply]
      by_cases hdone : done state
      · rw [hfixed state hdone, Function.iterate_fixed (hfixed state hdone)]
        exact hdone
      · have hturn := hless state hdone
        exact ih (by omega)

/-- What is done stays as it is. -/
theorem iterate_eq_of_done (hfixed : ∀ state, done state → turn state = state) {first second : Nat}
    (hfirst : done (turn^[first] state)) (hsecond : done (turn^[second] state)) :
    turn^[first] state = turn^[second] state := by
  wlog hle : first ≤ second generalizing first second
  · exact (this hsecond hfirst (by omega)).symm
  · obtain ⟨rest, rfl⟩ := Nat.exists_eq_add_of_le' hle
    rw [Function.iterate_add_apply, Function.iterate_fixed (hfixed _ hfirst)]

end Turns

namespace ClassGraph

/-- Pairs of a parent and one of its children. -/
def edges (graph : ClassGraph) : List (String × String) :=
  graph.childLists.toList.flatMap fun (parent, children) => children.map (parent, ·)

theorem length_edges (graph : ClassGraph) : graph.edges.length = graph.edgeCount := by
  simp [edges, edgeCount, List.length_flatMap, List.sum_eq_foldr]

/-- The edges from a parent lead to the list that stands under its name. -/
theorem filter_flatMap_lists {lists : List (String × List String)}
    (hnodup : (lists.map Prod.fst).Nodup) (name : String) :
    ((lists.flatMap fun (parent, children) => children.map (parent, ·)).filter
        fun edge => edge.1 == name).map Prod.snd =
      ((lists.find? fun item => item.1 == name).map Prod.snd).getD [] := by
  induction lists with
  | nil => rfl
  | cons item rest ih =>
      obtain ⟨parent, children⟩ := item
      obtain ⟨hparent, hrest⟩ := List.nodup_cons.1 hnodup
      rw [List.flatMap_cons, List.filter_append, List.map_append, ih hrest]
      by_cases hname : parent = name
      · have hmissing : (rest.find? fun item => item.1 == name) = none := by
          apply List.find?_eq_none.2
          intro other hother hsame
          rw [hname, ← eq_of_beq hsame] at hparent
          exact hparent (List.mem_map.2 ⟨other, hother, rfl⟩)
        simp [hname, hmissing, List.filter_map, Function.comp_def]
      · simp [hname, List.filter_map, Function.comp_def]

theorem children_eq (graph : ClassGraph) (name : String) :
    graph.children name = (graph.edges.filter fun edge => edge.1 == name).map Prod.snd :=
  (filter_flatMap_lists graph.childLists.keys_nodup name).symm

/-- A walk on its way: the classes found, last one first, and those to be looked at. -/
structure Walk where
  found : List (String × Nat)
  pending : List (String × Nat)

namespace Walk

/-- The walk at its start: the children of the root are pending. -/
def start (graph : ClassGraph) : Walk :=
  ⟨[], (graph.children rootName).map fun child => (child, 2)⟩

/-- Looks at the class that is pending first. -/
def turn (graph : ClassGraph) (walk : Walk) : Walk :=
  match walk.pending with
  | [] => walk
  | (name, depth) :: rest =>
      if name = rootName ∨ name ∈ walk.found.map Prod.fst then ⟨walk.found, rest⟩
      else
        ⟨(name, depth) :: walk.found,
          (graph.children name).map (fun child => (child, depth + 1)) ++ rest⟩

/-- Whether a name is neither the root's nor one of those given. -/
def isNew (names : List String) (name : String) : Bool :=
  !decide (name = rootName ∨ name ∈ names)

/-- The edges that are still to be taken: those to what is pending, and those from what has not been
found. -/
def outstanding (graph : ClassGraph) (walk : Walk) : Nat :=
  walk.pending.length + graph.edges.countP fun edge => isNew (walk.found.map Prod.fst) edge.1

variable {graph : ClassGraph} {walk : Walk}

theorem turn_of_nil (h : walk.pending = []) : walk.turn graph = walk := by
  rw [turn, h]

theorem turn_of_known {name : String} {depth : Nat} {rest : List (String × Nat)}
    (hpending : walk.pending = (name, depth) :: rest)
    (hknown : name = rootName ∨ name ∈ walk.found.map Prod.fst) :
    walk.turn graph = ⟨walk.found, rest⟩ := by
  rw [turn, hpending]
  exact if_pos hknown

theorem turn_of_new {name : String} {depth : Nat} {rest : List (String × Nat)}
    (hpending : walk.pending = (name, depth) :: rest)
    (hnew : ¬(name = rootName ∨ name ∈ walk.found.map Prod.fst)) :
    walk.turn graph = ⟨(name, depth) :: walk.found,
      (graph.children name).map (fun child => (child, depth + 1)) ++ rest⟩ := by
  rw [turn, hpending]
  exact if_neg hnew

/-- A turn does not change where the walk leads. -/
theorem explore_turn (graph : ClassGraph) (walk : Walk) :
    graph.explore (walk.turn graph).found (walk.turn graph).pending =
      graph.explore walk.found walk.pending := by
  cases hpending : walk.pending with
  | nil => rw [turn_of_nil hpending, hpending]
  | cons entry rest =>
      obtain ⟨name, depth⟩ := entry
      by_cases hknown : name = rootName ∨ name ∈ walk.found.map Prod.fst
      · rw [turn_of_known hpending hknown, explore.eq_2, if_pos hknown]
      · rw [turn_of_new hpending hknown, explore.eq_2, if_neg hknown]

theorem explore_turns (graph : ClassGraph) (walk : Walk) (count : Nat) :
    graph.explore ((turn graph)^[count] walk).found ((turn graph)^[count] walk).pending =
      graph.explore walk.found walk.pending := by
  induction count generalizing walk with
  | zero => rfl
  | succ count ih => rw [Function.iterate_succ_apply, ih, explore_turn]

theorem isNew_cons (names : List String) (name other : String) :
    isNew (name :: names) other = (isNew names other && other != name) := by
  by_cases hsame : other = name
  · simp [isNew, hsame]
  · simp [isNew, hsame]

/-- The edges from a class that is found now are no longer among those from new classes. -/
theorem countP_isNew {name : String} {names : List String} (hnew : isNew names name = true)
    (edges : List (String × String)) :
    (edges.countP fun edge => isNew names edge.1) =
      (edges.filter fun edge => edge.1 == name).length +
        edges.countP fun edge => isNew (name :: names) edge.1 := by
  induction edges with
  | nil => rfl
  | cons edge rest ih =>
      rw [List.countP_cons, List.countP_cons, List.filter_cons, ih, isNew_cons]
      by_cases hedge : edge.1 = name
      · simp only [hedge, hnew, beq_self_eq_true, bne_self_eq_false, Bool.and_false, if_true,
          List.length_cons, Bool.false_eq_true, if_false]
        omega
      · have hother : (edge.1 == name) = false := beq_false_of_ne hedge
        have hkept : (isNew names edge.1 && edge.1 != name) = isNew names edge.1 := by
          simp [bne, hother]
        rw [hkept, hother]
        simp only [Bool.false_eq_true, if_false]
        omega

/-- Each turn takes one of the outstanding edges. -/
theorem outstanding_turn (graph : ClassGraph) (h : walk.pending ≠ []) :
    (walk.turn graph).outstanding graph + 1 = walk.outstanding graph := by
  obtain ⟨⟨name, depth⟩, rest, hpending⟩ := List.exists_cons_of_ne_nil h
  by_cases hknown : name = rootName ∨ name ∈ walk.found.map Prod.fst
  · rw [turn_of_known hpending hknown]
    simp only [outstanding, hpending, List.length_cons]
    omega
  · have hnew : isNew (walk.found.map Prod.fst) name = true := by
      simp only [isNew, hknown, decide_false, Bool.not_false]
    rw [turn_of_new hpending hknown]
    simp only [outstanding, hpending, countP_isNew hnew graph.edges, children_eq,
      List.length_append, List.length_map, List.length_cons, List.map_cons]
    omega

theorem pending_turns {count : Nat} (h : walk.outstanding graph ≤ count) :
    ((turn graph)^[count] walk).pending = [] := by
  have hfixed : ∀ walk : Walk, walk.pending = [] → walk.turn graph = walk := fun _ => turn_of_nil
  have hless : ∀ walk : Walk, ¬walk.pending = [] →
      (walk.turn graph).outstanding graph < walk.outstanding graph := by
    intro walk hpending
    have hturn := outstanding_turn graph hpending
    omega
  exact done_iterate hfixed hless h

theorem outstanding_start (graph : ClassGraph) :
    (start graph).outstanding graph = graph.edgeCount := by
  have hnew : (fun edge : String × String => isNew [] edge.1) =
      fun edge => decide ¬(edge.1 == rootName) = true := by
    funext edge
    simp [isNew]
  simp only [outstanding, start, children_eq, ← length_edges, List.length_map, List.map_nil, hnew]
  rw [← List.countP_eq_length_filter]
  exact (List.length_eq_countP_add_countP _).symm

/-- The walk as it ends. -/
def ended (graph : ClassGraph) : Walk :=
  (turn graph)^[graph.edgeCount] (start graph)

theorem pending_ended (graph : ClassGraph) : (ended graph).pending = [] :=
  pending_turns (outstanding_start graph).le

theorem found_ended (graph : ClassGraph) :
    (ended graph).found =
      graph.explore [] ((graph.children rootName).map fun child => (child, 2)) := by
  have hend := explore_turns graph (start graph) graph.edgeCount
  rw [← ended, pending_ended, explore.eq_1] at hend
  exact hend

end Walk

end ClassGraph

end ClassMetrics
