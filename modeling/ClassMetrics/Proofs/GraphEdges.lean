import Mathlib
import ClassMetrics.Proofs.DepthWalk
import ClassMetrics.Proofs.NameOrder
import ClassMetrics.Proofs.Pairing

/-!
The edges of the class graph. The children of a class are the classes of the table that name it, in
ascending order and each once, although a class may name one parent twice. Main statement: the graph
has one edge for each pair of a parent and a child, and no other.
-/

namespace ClassMetrics

namespace ClassTable

/-- Parent and child are classes of the table, and the child has the parent as its superclass or,
unless it is the root, as one of its interfaces. -/
def IsChild (table : ClassTable) (parent child : String) : Prop :=
  table.contains parent = true ∧ ∃ header, table.find? child = some header ∧
    (header.super? = some parent ∨ child ≠ rootName ∧ parent ∈ header.interfaces.toList)

/-- Parent and child are classes of the table, and the child names the parent as its superclass or
as one of its interfaces. -/
def NamesParent (table : ClassTable) (parent child : String) : Prop :=
  table.contains parent = true ∧ ∃ header, table.find? child = some header ∧
    (header.super? = some parent ∨ parent ∈ header.interfaces.toList)

variable {table : ClassTable} {header : ClassHeader} {parent child : String}

theorem IsChild.namesParent (h : table.IsChild parent child) : table.NamesParent parent child := by
  obtain ⟨hparent, header, hfound, hnamed⟩ := h
  exact ⟨hparent, header, hfound, hnamed.imp_right And.right⟩

theorem NamesParent.isChild (h : table.NamesParent parent child) (hchild : child ≠ rootName) :
    table.IsChild parent child := by
  obtain ⟨hparent, header, hfound, hnamed⟩ := h
  exact ⟨hparent, header, hfound, hnamed.imp_right fun hinterface => ⟨hchild, hinterface⟩⟩

/-- The classes below the root are the same, whether or not steps back to it are counted. -/
theorem reachable_iff {name : String} (hname : name ≠ rootName) :
    Relation.ReflTransGen table.IsChild rootName name ↔
      Relation.TransGen table.NamesParent rootName name := by
  constructor
  · intro h
    have hsteps := (Relation.reflTransGen_iff_eq_or_transGen.1 h).resolve_left hname
    exact Relation.TransGen.mono (fun _ _ => IsChild.namesParent) _ _ hsteps
  · intro h
    have hsteps := h.to_reflTransGen
    clear hname h
    induction hsteps with
    | refl => exact .refl
    | @tail _ child _ hnames ih =>
        by_cases hroot : child = rootName
        · rw [hroot]
        · exact ih.tail (hnames.isChild hroot)

theorem IsChild.child_mem_names (h : table.IsChild parent child) : child ∈ table.names := by
  obtain ⟨-, header, hfound, -⟩ := h
  have hname : header.name = child := (find?_eq_some_iff.1 hfound).2
  rw [← hname]
  exact mem_names_of_find? hfound

theorem mem_parents :
    parent ∈ table.parents header ↔ table.contains parent = true ∧
      (header.super? = some parent ∨
        header.name ≠ rootName ∧ parent ∈ header.interfaces.toList) := by
  simp only [parents, List.mem_filter, List.mem_append, Option.mem_toList]
  by_cases hroot : header.name = rootName
  · simp [ClassHeader.isRoot, hroot, and_comm]
  · simp [ClassHeader.isRoot, hroot, and_comm]

end ClassTable

/-! ## Lists of children -/

namespace ChildLists

theorem of_push (lists : ChildLists) (child parent name : String) :
    (lists.push child parent).of name =
      lists.of name ++ if parent = name then [child] else [] := by
  by_cases hname : parent = name
  · simp [push, of, hname]
  · simp [push, of, hname]

theorem of_sorted (lists : ChildLists) (name : String) :
    lists.sorted.of name = sortedOnce (lists.of name) := by
  rw [of, of, sorted, Ordered.find?_update]
  cases lists.find? name with
  | none =>
      change [] = (([] : List String).mergeSort _).eraseReps
      rw [List.mergeSort_nil]
      rfl
  | some item => rfl

/-- A child comes to the list of each of its parents. -/
theorem mem_foldl_push (lists : ChildLists) (child : String) (parents : List String)
    {parent other : String} :
    other ∈ (parents.foldl (·.push child) lists).of parent ↔
      other ∈ lists.of parent ∨ other = child ∧ parent ∈ parents := by
  induction parents generalizing lists with
  | nil => simp
  | cons first rest ih =>
      rw [List.foldl_cons, ih, of_push]
      by_cases hfirst : first = parent
      · simp [hfirst, or_assoc]
        tauto
      · simp [hfirst, Ne.symm hfirst]

theorem mem_foldl_parents (table : ClassTable) (lists : ChildLists) (headers : List ClassHeader)
    {parent other : String} :
    other ∈ (headers.foldl (fun lists header =>
        (table.parents header).foldl (·.push header.name) lists) lists).of parent ↔
      other ∈ lists.of parent ∨
        ∃ header ∈ headers, other = header.name ∧ parent ∈ table.parents header := by
  induction headers generalizing lists with
  | nil => simp
  | cons first rest ih =>
      rw [List.foldl_cons, ih, mem_foldl_push]
      simp [or_assoc]

theorem mem_sortedOnce {names : List String} {name : String} :
    name ∈ sortedOnce names ↔ name ∈ names := by
  rw [sortedOnce, mem_eraseReps, List.mem_mergeSort]

theorem sortedOnce_ascending (names : List String) : (sortedOnce names).Pairwise (· < ·) := by
  have hsorted : (names.mergeSort fun name other => decide (name ≤ other)).Pairwise
      fun name other => decide (name ≤ other) = true := by
    apply List.pairwise_mergeSort
    · intro first second third hfirst hsecond
      exact decide_eq_true (String.le_trans (of_decide_eq_true hfirst) (of_decide_eq_true hsecond))
    · intro first second
      simpa using String.le_total first second
  apply pairwise_eraseReps
  · exact fun _ _ _ => String.lt_trans
  · apply hsorted.imp
    intro name other hle
    by_cases hlt : name < other
    · exact .inr hlt
    · exact .inl (String.le_antisymm (of_decide_eq_true hle) hlt)

end ChildLists

namespace ClassGraph

variable {table : ClassTable} {parent child : String}

theorem children_ascending (table : ClassTable) (parent : String) :
    ((ofTable table).children parent).Pairwise (· < ·) := by
  rw [children, ofTable, ChildLists.of_sorted]
  exact ChildLists.sortedOnce_ascending _

theorem mem_children_iff :
    child ∈ (ofTable table).children parent ↔
      ∃ header ∈ table.toList, child = header.name ∧ parent ∈ table.parents header := by
  rw [children, ofTable, ChildLists.of_sorted, ChildLists.mem_sortedOnce,
    ChildLists.mem_foldl_parents]
  simp [ChildLists.of, Ordered.find?, Ordered.empty]

/-- The children of a class in the graph are the classes that name it, in the order of the table. -/
theorem children_ofTable (table : ClassTable) (parent : String) :
    (ofTable table).children parent =
      (table.toList.filter fun header => decide (parent ∈ table.parents header)).map (·.name) := by
  have hnaming : ((table.toList.filter fun header =>
      decide (parent ∈ table.parents header)).map (·.name)).Pairwise (· < ·) :=
    (table.classes.ascending.sublist List.filter_sublist).map _ fun _ _ h => h
  have hequal : (⟨_, children_ascending table parent⟩ : NameSet) = ⟨_, hnaming⟩ := by
    apply Ordered.ext_mem
    intro child
    simp only [mem_children_iff, List.mem_map, List.mem_filter, decide_eq_true_eq]
    constructor
    · rintro ⟨header, hheader, rfl, hparent⟩
      exact ⟨header, ⟨hheader, hparent⟩, rfl⟩
    · rintro ⟨header, ⟨hheader, hparent⟩, rfl⟩
      exact ⟨header, hheader, rfl, hparent⟩
  exact congrArg Ordered.toList hequal

/-- The children of a class are those that the table says it has. -/
theorem mem_children_ofTable :
    child ∈ (ofTable table).children parent ↔ table.IsChild parent child := by
  simp only [mem_children_iff, ClassTable.mem_parents, ClassTable.IsChild,
    ClassTable.find?_eq_some_iff]
  constructor
  · rintro ⟨header, hheader, rfl, hparent, hnamed⟩
    exact ⟨hparent, header, ⟨hheader, rfl⟩, hnamed⟩
  · rintro ⟨hparent, header, ⟨hheader, rfl⟩, hnamed⟩
    exact ⟨header, hheader, rfl, hparent, hnamed⟩

theorem mem_edges_iff {graph : ClassGraph} :
    (parent, child) ∈ graph.edges ↔ child ∈ graph.children parent := by
  simp [children_eq]

/-- No edge stands twice, since no child stands twice in a list and no two lists are for one
parent. -/
theorem edges_nodup (table : ClassTable) : (ofTable table).edges.Nodup := by
  apply List.nodup_flatMap.2
  constructor
  · rintro ⟨parent, children⟩ hmem
    have hfound : (ofTable table).childLists.find? parent = some (parent, children) :=
      Ordered.find?_eq_some_iff.2 ⟨hmem, rfl⟩
    have hchildren : (ofTable table).children parent = children := by
      rw [ClassGraph.children, ChildLists.of, hfound]
      rfl
    have hnodup : children.Nodup := by
      rw [← hchildren]
      exact (children_ascending table parent).imp fun h => String.ne_of_lt h
    exact hnodup.map fun _ _ h => congrArg Prod.snd h
  · apply (ofTable table).childLists.ascending.imp
    rintro ⟨first, _⟩ ⟨second, _⟩ hlt edge hfirst hsecond
    obtain ⟨_, -, rfl⟩ := List.mem_map.1 hfirst
    obtain ⟨_, -, hother⟩ := List.mem_map.1 hsecond
    obtain rfl : second = first := congrArg Prod.fst hother
    exact String.lt_irrefl _ hlt

theorem encard_isChild (table : ClassTable) :
    {edge : String × String | table.IsChild edge.1 edge.2}.encard = (ofTable table).edgeCount := by
  have hset : {edge : String × String | table.IsChild edge.1 edge.2} =
      (ofTable table).edges.toFinset := by
    ext ⟨parent, child⟩
    rw [List.coe_toFinset, Set.mem_ofPred_eq, Set.mem_ofPred_eq, mem_edges_iff,
      mem_children_ofTable]
  rw [hset, Set.encard_coe_eq_coe_finsetCard, List.toFinset_card_of_nodup (edges_nodup table),
    length_edges]

/-- The children of every class are in the ascending order of their names' bytes, they are those
that the table says it has, and the edges are as many as there are pairs of a parent and a child. -/
theorem ofTable_holds_once (table : ClassTable) :
    (∀ parent, (((ofTable table).children parent).map Utf8.encode).Pairwise (· < ·)) ∧
      (∀ parent child, child ∈ (ofTable table).children parent ↔
        table.contains parent = true ∧ table.contains child = true ∧
          ∃ header, table.find? child = some header ∧
            (header.super? = some parent ∨
              child ≠ rootName ∧ parent ∈ header.interfaces.toList)) ∧
      (ofTable table).edgeCount =
        {edge : String × String | table.IsChild edge.1 edge.2}.encard := by
  refine ⟨?_, ?_, (encard_isChild table).symm⟩
  · intro parent
    exact (children_ascending table parent).map Utf8.encode fun _ _ => Utf8.encode_lt_encode
  · intro parent child
    rw [mem_children_ofTable]
    constructor
    · intro hchild
      obtain ⟨hparent, header, hfound, hnamed⟩ := hchild
      exact ⟨hparent, Option.isSome_of_eq_some hfound, header, hfound, hnamed⟩
    · rintro ⟨hparent, -, hnamed⟩
      exact ⟨hparent, hnamed⟩

-- A class that names its superclass once more as an interface is one child of it.
example : (ofTable (ClassTable.initial.insert ⟨"A", some rootName, .ofList [rootName], []⟩)).edges =
    [(rootName, "A")] := by
  cbv

end ClassGraph

end ClassMetrics
