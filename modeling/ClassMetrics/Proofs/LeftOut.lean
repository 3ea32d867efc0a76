import Mathlib
import ClassMetrics.Proofs.Ancestors
import ClassMetrics.Proofs.DepthPaths

/-!
Classes that the depths leave out. The walk from the root goes down, by superclasses and interfaces,
and the chain of superclasses goes up; a chain that comes to the root is an edge path of the walk
turned around. So the chain of a class that was not recorded ends before the root, and where it ends
says why: a superclass is not named, is not in the table, or has been met before. Main statement: one
of the three holds of every class left out, and if none holds of any class, all are recorded.
-/

namespace ClassMetrics.ClassTable

variable {table : ClassTable} {header ancestor : ClassHeader} {name : String}

section Chain

/-- Each class of a chain is the superclass of the one before it. -/
theorem isChain_chainFrom (table : ClassTable) (seen : List String) {first : ClassHeader}
    {next : Option String} (hnext : first.super? = next) :
    (first :: table.chainFrom seen next).IsChain table.SuperStep := by
  fun_induction chainFrom table seen next generalizing first with
  | case1 => exact List.isChain_singleton first
  | case2 => exact List.isChain_singleton first
  | case3 => exact List.isChain_singleton first
  | case4 seen name ancestor hfound hnew ih =>
      exact List.isChain_cons_cons.2 ⟨⟨name, hnext, hfound⟩, ih rfl⟩

/-- The last class of a chain names no superclass, or one that is missing, or one that is on the
chain or has been seen before it. -/
theorem chainFrom_ends (table : ClassTable) (seen : List String) (first : ClassHeader)
    {next : Option String} (hnext : first.super? = next) :
    ((table.chainFrom seen next).getLastD first).super? = none ∨
      ∃ name, ((table.chainFrom seen next).getLastD first).super? = some name ∧
        (table.contains name = false ∨
          name ∈ seen ++ (table.chainFrom seen next).map (·.name)) := by
  fun_induction chainFrom table seen next generalizing first with
  | case1 => exact Or.inl hnext
  | case2 seen name hmissing =>
      have habsent : table.contains name = false := by
        change (table.find? name).isSome = false
        rw [hmissing]
        rfl
      exact Or.inr ⟨name, hnext, Or.inl habsent⟩
  | case3 seen name ancestor hfound hseen =>
      have hname : ancestor.name = name := Ordered.key_of_find? hfound
      rw [hname] at hseen
      exact Or.inr ⟨name, hnext, Or.inr (List.mem_append_left _ hseen)⟩
  | case4 seen name ancestor hfound hnew ih =>
      rw [List.getLastD_cons]
      apply (ih ancestor rfl).imp_right
      rintro ⟨last, hlast, hend⟩
      refine ⟨last, hlast, hend.imp_right ?_⟩
      simp only [List.cons_append, List.mem_cons, List.mem_append, List.map_cons]
      tauto

/-- The last of the superclasses of a class, or the class itself if it has none. -/
def lastAncestor (table : ClassTable) (header : ClassHeader) : ClassHeader :=
  (table.superclassChain header).getLastD header

theorem lastAncestor_mem (table : ClassTable) (header : ClassHeader) :
    table.lastAncestor header ∈ header :: table.superclassChain header := by
  rw [lastAncestor, List.getLastD_eq_getLast?]
  cases hlast : (table.superclassChain header).getLast? with
  | none => exact List.mem_cons_self
  | some last => exact List.mem_cons_of_mem _ (List.mem_of_getLast? hlast)

/-- From every class of a chain, steps to superclasses lead to its last one. -/
theorem reaches_lastAncestor (h : ancestor ∈ header :: table.superclassChain header) :
    Relation.ReflTransGen table.SuperStep ancestor (table.lastAncestor header) := by
  have hchain : (header :: table.superclassChain header).IsChain table.SuperStep :=
    isChain_chainFrom table [header.name] rfl
  apply hchain.backwards_induction
    (fun inner => Relation.ReflTransGen table.SuperStep inner (table.lastAncestor header)) _
    (fun _ _ hstep hlater => hlater.head hstep) _ ancestor h
  intro hnonempty
  have hlast : (header :: table.superclassChain header).getLast hnonempty =
      table.lastAncestor header := by
    rw [lastAncestor, List.getLast_eq_getLastD]
  rw [hlast]

end Chain

section Reaching

theorem SuperStep.namesParent (h : table.SuperStep header ancestor)
    (hheader : header ∈ table.toList) : table.NamesParent ancestor.name header.name := by
  obtain ⟨name, hsuper, hfound⟩ := h
  have hname : ancestor.name = name := Ordered.key_of_find? hfound
  rw [hname]
  exact ⟨Option.isSome_of_eq_some hfound, header, find?_eq_some_iff.2 ⟨hheader, rfl⟩,
    Or.inl hsuper⟩

theorem mem_toList_of_superSteps (h : Relation.TransGen table.SuperStep header ancestor) :
    ancestor ∈ table.toList :=
  mem_toList_of_transGen (fun _ _ => mem_toList_of_superStep) h

theorem mem_toList_of_mem_chain (hheader : header ∈ table.toList)
    (h : ancestor ∈ header :: table.superclassChain header) : ancestor ∈ table.toList := by
  rcases List.mem_cons.1 h with rfl | hchain
  · exact hheader
  · exact mem_toList_of_superSteps ((mem_superclassChain hheader).1 hchain).2

/-- Steps up to superclasses are steps down from parents, in the opposite order. -/
theorem namesParent_of_superSteps (hheader : header ∈ table.toList)
    (h : Relation.TransGen table.SuperStep header ancestor) :
    Relation.TransGen table.NamesParent ancestor.name header.name := by
  induction h with
  | single hstep => exact .single (hstep.namesParent hheader)
  | tail hbefore hstep ih =>
      exact .head (hstep.namesParent (mem_toList_of_superSteps hbefore)) ih

theorem mem_nonRoot : header ∈ table.nonRoot ↔ header ∈ table.toList ∧ header.name ≠ rootName := by
  simp [nonRoot, ClassHeader.isRoot]

/-- A class that has the root among its superclasses is recorded. -/
theorem recorded_of_root_mem_chain (hheader : header ∈ table.nonRoot)
    (hancestor : ancestor ∈ table.superclassChain header) (hroot : ancestor.name = rootName) :
    header.name ∈ (ClassGraph.ofTable table).depths.keys := by
  obtain ⟨hmem, hother⟩ := mem_nonRoot.1 hheader
  have hsteps := namesParent_of_superSteps hmem ((mem_superclassChain hmem).1 hancestor).2
  rw [hroot] at hsteps
  exact mem_keys_iff.2 ⟨hother, (reachable_iff hother).2 hsteps⟩

theorem mem_unresolvedParents (hheader : header ∈ table.toList) (hsuper : header.super? = some name)
    (hmissing : table.contains name = false) : name ∈ table.unresolvedParents.toList := by
  apply Ordered.mem_ofList.2
  apply List.mem_flatMap.2
  exact ⟨header, hheader, by simp [hsuper, hmissing]⟩

end Reaching

/-- Steps to superclasses lead from the class back to it. -/
def OnCycle (table : ClassTable) (header : ClassHeader) : Prop :=
  Relation.TransGen table.SuperStep header header

/-- Why a class is left out: the root is not among its superclasses, because the last of them, or
the class itself if there are none, names no superclass, or one that is nowhere to be found, or the
class or one of its superclasses again, which is then on a cycle. -/
structure LeftOut (table : ClassTable) (header : ClassHeader) : Prop where
  apart : ∀ ancestor ∈ table.superclassChain header, ancestor.name ≠ rootName
  ended : (table.lastAncestor header).super? = none ∨
    ∃ name, (table.lastAncestor header).super? = some name ∧
      (name ∈ table.unresolvedParents.toList ∨
        (name = header.name ∨ name ∈ (table.superclassChain header).map (·.name)) ∧
          ∃ looped, looped.name = name ∧ table.OnCycle looped)

/-- A chain that ends at a class met before ends in a cycle. -/
theorem exists_onCycle (hheader : header ∈ table.toList)
    (hsuper : (table.lastAncestor header).super? = some name)
    (hmet : name ∈ (header :: table.superclassChain header).map (·.name)) :
    ∃ looped, looped.name = name ∧ table.OnCycle looped := by
  obtain ⟨looped, hlooped, rfl⟩ := List.mem_map.1 hmet
  have hmem : looped ∈ table.toList := mem_toList_of_mem_chain hheader hlooped
  have hback : table.SuperStep (table.lastAncestor header) looped :=
    ⟨looped.name, hsuper, find?_eq_some_iff.2 ⟨hmem, rfl⟩⟩
  exact ⟨looped, rfl, Relation.TransGen.tail' (reaches_lastAncestor hlooped) hback⟩

theorem leftOut_of_not_recorded (hheader : header ∈ table.nonRoot)
    (hmissing : header.name ∉ (ClassGraph.ofTable table).depths.keys) : table.LeftOut header where
  apart := fun _ hancestor hroot =>
    hmissing (recorded_of_root_mem_chain hheader hancestor hroot)
  ended := by
    have hmem := (mem_nonRoot.1 hheader).1
    have hlast : table.lastAncestor header ∈ table.toList :=
      mem_toList_of_mem_chain hmem (table.lastAncestor_mem header)
    have hends := chainFrom_ends table [header.name] header rfl
    apply hends.imp_right
    rintro ⟨name, hsuper, hend⟩
    refine ⟨name, hsuper, ?_⟩
    rcases hend with habsent | hmet
    · exact Or.inl (mem_unresolvedParents hlast hsuper habsent)
    · exact Or.inr ⟨List.mem_cons.1 hmet, exists_onCycle hmem hsuper hmet⟩

/-- The recorded classes are those of the table but the root, if no class is left out. -/
theorem size_depths_of_recorded
    (h : ∀ header ∈ table.nonRoot, header.name ∈ (ClassGraph.ofTable table).depths.keys) :
    (ClassGraph.ofTable table).depths.size + 1 = table.size := by
  have hnames : table.names.Nodup := table.classes.keys_nodup
  have hroot : rootName ∈ table.names := contains_iff.1 table.contains_root
  have hperm : (ClassGraph.ofTable table).depths.keys.Perm (table.names.erase rootName) := by
    apply (List.perm_ext_iff_of_nodup (Ordered.keys_nodup _) (hnames.erase _)).2
    intro name
    rw [hnames.mem_erase_iff]
    constructor
    · intro hrecorded
      obtain ⟨hother, hreached⟩ := mem_keys_iff.1 hrecorded
      obtain ⟨parent, -, hstep⟩ := Relation.TransGen.tail'_iff.1
        ((Relation.reflTransGen_iff_eq_or_transGen.1 hreached).resolve_left hother)
      exact ⟨hother, hstep.child_mem_names⟩
    · rintro ⟨hother, hname⟩
      obtain ⟨header, hheader, rfl⟩ := List.mem_map.1 hname
      exact h header (mem_nonRoot.2 ⟨hheader, hother⟩)
  have hlength := hperm.length_eq
  have hpositive := List.length_pos_of_mem hroot
  rw [List.length_erase_of_mem hroot] at hlength
  simp only [Ordered.keys, names, List.length_map] at hlength hpositive
  simp only [Ordered.size, size]
  omega

/-- Every class that is left out is accounted for. Hence all classes but the root are recorded if no
name is missing, every class but the root names a superclass, and none descends from itself. -/
theorem leftOut_or_recorded (table : ClassTable) :
    (∀ header ∈ table.nonRoot, header.name ∉ (ClassGraph.ofTable table).depths.keys →
      table.LeftOut header) ∧
    (table.unresolvedParents.size = 0 → (∀ header ∈ table.nonRoot, header.super? ≠ none) →
      (∀ header, ¬table.OnCycle header) →
        (ClassGraph.ofTable table).depths.size + 1 = table.size) := by
  refine ⟨fun header => leftOut_of_not_recorded, ?_⟩
  intro hresolved hsuper hacyclic
  apply size_depths_of_recorded
  intro header hheader
  by_contra hmissing
  have hleft := leftOut_of_not_recorded hheader hmissing
  obtain ⟨hmem, hother⟩ := mem_nonRoot.1 hheader
  have hlast : table.lastAncestor header ∈ table.nonRoot := by
    have hon := table.lastAncestor_mem header
    refine mem_nonRoot.2 ⟨mem_toList_of_mem_chain hmem hon, ?_⟩
    rcases List.mem_cons.1 hon with hself | hchain
    · rw [hself]
      exact hother
    · exact hleft.apart _ hchain
  rcases hleft.ended with hnone | ⟨name, -, hunresolved | ⟨-, looped, -, hlooped⟩⟩
  · exact hsuper _ hlast hnone
  · rw [List.length_eq_zero_iff.1 hresolved] at hunresolved
    cases hunresolved
  · exact hacyclic looped hlooped

/-- Two classes that descend from each other, one that names no superclass, and one that names a
missing superclass and an interface that is left out too. -/
def tornTable : ClassTable :=
  initial
    |>.insert ⟨"A", some "B", .empty, []⟩
    |>.insert ⟨"B", some "A", .empty, []⟩
    |>.insert ⟨"N", none, .empty, []⟩
    |>.insert ⟨"Z", some "Missing", .ofList ["N"], []⟩

/-- A table in which the names of superclasses come first. -/
def layeredTable : ClassTable :=
  initial
    |>.insert ⟨"k", some rootName, .empty, []⟩
    |>.insert ⟨"l", some "k", .ofList ["m"], []⟩
    |>.insert ⟨"m", some "k", .ofList ["l"], []⟩

theorem not_onCycle_of_descending
    (h : ∀ header ∈ table.toList, ∀ name, header.super? = some name → name < header.name) :
    ∀ header, ¬table.OnCycle header := by
  have hstepLess : ∀ header ancestor, header ∈ table.toList →
      table.SuperStep header ancestor → ancestor.name < header.name := by
    rintro header ancestor hheader ⟨name, hsuper, hfound⟩
    have hname : ancestor.name = name := Ordered.key_of_find? hfound
    rw [hname]
    exact h header hheader name hsuper
  have hless : ∀ header ancestor, header ∈ table.toList →
      Relation.TransGen table.SuperStep header ancestor → ancestor.name < header.name := by
    intro header ancestor hheader hsteps
    induction hsteps with
    | single hstep => exact hstepLess header _ hheader hstep
    | @tail inner outer hbefore hstep ih =>
        have hinner := mem_toList_of_superSteps hbefore
        exact String.lt_trans (hstepLess inner outer hinner hstep) ih
  intro header hcycle
  have hheader := mem_toList_of_superSteps hcycle
  exact String.lt_irrefl _ (hless header header hheader hcycle)

theorem leftOut_tornTable :
    (∀ header ∈ tornTable.nonRoot, tornTable.LeftOut header) ∧
      (ClassGraph.ofTable layeredTable).depths.size + 1 = layeredTable.size := by
  constructor
  · have hnone : (ClassGraph.ofTable tornTable).depths.keys = [] := by cbv
    intro header hheader
    exact (leftOut_or_recorded tornTable).1 header hheader (by simp [hnone])
  · have hresolved : layeredTable.unresolvedParents.size = 0 := by cbv
    have hsuper : layeredTable.nonRoot.all (·.super?.isSome) = true := by cbv
    have hdescending :
        layeredTable.toList.all (fun header => header.super?.all (· < header.name)) = true := by cbv
    simp only [List.all_eq_true, Option.all_eq_true, decide_eq_true_eq] at hdescending
    simp only [List.all_eq_true, Option.isSome_iff_ne_none] at hsuper
    exact (leftOut_or_recorded layeredTable).2 hresolved hsuper
      (not_onCycle_of_descending hdescending)

end ClassMetrics.ClassTable
