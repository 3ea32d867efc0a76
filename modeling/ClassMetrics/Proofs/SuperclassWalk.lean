import Mathlib
import ClassMetrics.Proofs.Growth
import ClassMetrics.Proofs.LeftOut
import ClassMetrics.Proofs.ParentSearch

/-!
The chain of superclasses as a walk. A class has one superclass at most, so there is one way up from
it, which may come to an end, run off the table, or run into a cycle with the class itself on it or
not. Main statement: the chain goes this way as long as it comes to no class for the second time, it
is the only sequence of classes that does, and it passes all classes that are on the way.
-/

namespace ClassMetrics.ClassTable

/-- A sequence of classes that goes from superclass to superclass, comes to no class twice and not
back to the first one, and goes on as long as it can. -/
structure IsAncestorWalk (table : ClassTable) (header : ClassHeader) (walk : List ClassHeader) :
    Prop where
  linked : (header :: walk).IsChain table.SuperStep
  distinct : ((header :: walk).map (·.name)).Nodup
  ended : (walk.getLastD header).super? = none ∨
    ∃ name, (walk.getLastD header).super? = some name ∧
      (table.contains name = false ∨ name ∈ (header :: walk).map (·.name))

variable {table : ClassTable} {header parent : ClassHeader} {walk : List ClassHeader}

theorem superclassChain_isAncestorWalk (hheader : header ∈ table.toList) :
    table.IsAncestorWalk header (table.superclassChain header) where
  linked := isChain_chainFrom table [header.name] rfl
  distinct := by
    have hwithin : ∀ ancestor ∈ header :: table.superclassChain header, ancestor ∈ table.toList :=
      fun _ => mem_toList_of_mem_chain hheader
    apply (cons_superclassChain_nodup hheader).map_on
    intro first hfirst second hsecond hname
    exact Ordered.eq_of_key_eq (hwithin first hfirst) (hwithin second hsecond) hname
  ended := chainFrom_ends table [header.name] header rfl

section Uniqueness

variable {seen : List String}

/-- A chain ends where no class that has not been seen comes next. -/
theorem chainFrom_eq_nil {next : Option String}
    (h : ∀ name ancestor, next = some name → table.find? name = some ancestor →
      ancestor.name ∈ seen) : table.chainFrom seen next = [] := by
  fun_cases chainFrom table seen next with
  | case1 => rfl
  | case2 => rfl
  | case3 => rfl
  | case4 name ancestor hfound hnew => exact absurd (h name ancestor rfl hfound) hnew

/-- Steps to superclasses that come to no class seen before, and go on as long as they can, are
those of the chain. -/
theorem eq_chainFrom (hlinked : (header :: walk).IsChain table.SuperStep)
    (hdistinct : (walk.map (·.name)).Nodup) (hnew : ∀ ancestor ∈ walk, ancestor.name ∉ seen)
    (hended : (walk.getLastD header).super? = none ∨
      ∃ name, (walk.getLastD header).super? = some name ∧
        (table.contains name = false ∨ name ∈ seen ++ walk.map (·.name))) :
    walk = table.chainFrom seen header.super? := by
  -- Along the walk: each class on it counts as seen for the rest.
  induction walk generalizing header seen with
  | nil =>
      symm
      apply chainFrom_eq_nil
      intro name ancestor hsuper hfound
      have hname : ancestor.name = name := Ordered.key_of_find? hfound
      rcases hended with hnone | ⟨last, hlast, habsent | hseen⟩
      · exact absurd (hsuper.symm.trans hnone) (by simp)
      · obtain rfl := Option.some.inj (hsuper.symm.trans hlast)
        have hcontains : table.contains name = true := Option.isSome_of_eq_some hfound
        rw [habsent] at hcontains
        cases hcontains
      · obtain rfl := Option.some.inj (hsuper.symm.trans hlast)
        rw [List.map_nil, List.append_nil] at hseen
        rw [hname]
        exact hseen
  | cons first rest ih =>
      obtain ⟨⟨name, hsuper, hfound⟩, hrest⟩ := List.isChain_cons_cons.1 hlinked
      obtain ⟨hfirst, hothers⟩ := List.forall_mem_cons.1 hnew
      obtain ⟨hapart, hnodup⟩ := List.nodup_cons.1 hdistinct
      rw [hsuper, chainFrom_of_find? hfound hfirst]
      congr 1
      apply ih hrest hnodup
      · intro ancestor hancestor hseen
        rcases List.mem_cons.1 hseen with hsame | hbefore
        · exact hapart (List.mem_map.2 ⟨ancestor, hancestor, hsame⟩)
        · exact hothers ancestor hancestor hbefore
      · rw [List.getLastD_cons] at hended
        apply hended.imp_right
        rintro ⟨last, hlast, hend⟩
        refine ⟨last, hlast, hend.imp_right ?_⟩
        simp only [List.cons_append, List.mem_cons, List.mem_append, List.map_cons]
        tauto

theorem IsAncestorWalk.eq (h : table.IsAncestorWalk header walk) :
    walk = table.superclassChain header := by
  obtain ⟨hown, hnodup⟩ := List.nodup_cons.1 h.distinct
  apply eq_chainFrom h.linked hnodup _ h.ended
  intro ancestor hancestor hsame
  exact hown (List.mem_map.2 ⟨ancestor, hancestor, List.mem_singleton.1 hsame⟩)

end Uniqueness

section Cycles

theorem SuperStep.unique {other : ClassHeader} (h : table.SuperStep header parent)
    (hother : table.SuperStep header other) : parent = other := by
  obtain ⟨name, hsuper, hfound⟩ := h
  obtain ⟨second, hsecond, hfoundSecond⟩ := hother
  obtain rfl := Option.some.inj (hsuper.symm.trans hsecond)
  exact Option.some.inj (hfound.symm.trans hfoundSecond)

/-- Steps to superclasses lead from a class to all that is on its chain, and nowhere else. -/
theorem mem_cons_superclassChain {ancestor : ClassHeader} (hheader : header ∈ table.toList) :
    ancestor ∈ header :: table.superclassChain header ↔
      Relation.ReflTransGen table.SuperStep header ancestor := by
  rw [List.mem_cons, mem_superclassChain hheader, Relation.reflTransGen_iff_eq_or_transGen]
  tauto

/-- A class is on a cycle if it is on the chain of its superclass. -/
theorem onCycle_iff_mem (hstep : table.SuperStep header parent) :
    table.OnCycle header ↔ header ∈ parent :: table.superclassChain parent := by
  rw [mem_cons_superclassChain (mem_toList_of_superStep hstep), OnCycle,
    Relation.TransGen.head'_iff]
  constructor
  · rintro ⟨first, hfirst, hsteps⟩
    rw [hstep.unique hfirst]
    exact hsteps
  · intro hsteps
    exact ⟨parent, hstep, hsteps⟩

/-- The chain of a class is that of its superclass, with the superclass itself in front, unless this
comes back to the class. -/
theorem superclassChain_eq_cons_iff (hheader : header ∈ table.toList)
    (hstep : table.SuperStep header parent) :
    table.superclassChain header = parent :: table.superclassChain parent ↔
      ¬table.OnCycle header := by
  have hparent := mem_toList_of_superStep hstep
  rw [onCycle_iff_mem hstep]
  constructor
  · intro hchain hback
    rw [← hchain] at hback
    exact (List.nodup_cons.1 (cons_superclassChain_nodup hheader)).1 hback
  · intro hapart
    -- There is one walk up from the class, so it is enough that the longer sequence is one.
    have hwalk := superclassChain_isAncestorWalk hparent
    have hlonger : table.IsAncestorWalk header (parent :: table.superclassChain parent) := by
      constructor
      case linked => exact List.isChain_cons_cons.2 ⟨hstep, hwalk.linked⟩
      case distinct =>
        apply List.nodup_cons.2
        refine ⟨?_, hwalk.distinct⟩
        intro hown
        obtain ⟨ancestor, hancestor, hname⟩ := List.mem_map.1 hown
        have hmem := mem_toList_of_mem_chain hparent hancestor
        exact hapart (Ordered.eq_of_key_eq hmem hheader hname ▸ hancestor)
      case ended =>
        rw [List.getLastD_cons]
        apply hwalk.ended.imp_right
        rintro ⟨name, hlast, hend⟩
        exact ⟨name, hlast, hend.imp_right (List.mem_cons_of_mem _)⟩
    exact hlonger.eq.symm

end Cycles

/-- The search for the superclasses of a class ends, and its result is the only walk up from the
class that goes on until it would come to a class for the second time. It has all classes on it that
steps to superclasses lead to, save the class itself, and goes on from the superclass as the walk up
from there does, if the class is not on a cycle. -/
theorem superclassChain_walks_up (table : ClassTable) (header : ClassHeader)
    (hheader : header ∈ table.toList) :
    let chain := table.superclassChain header
    (Search.turn table superNames [header.name])^[table.size] ⟨[], superNames header⟩ =
        ⟨chain.reverse, []⟩ ∧
      table.IsAncestorWalk header chain ∧
      (∀ walk, table.IsAncestorWalk header walk → walk = chain) ∧
      (∀ ancestor, ancestor ∈ chain ↔
        ancestor ≠ header ∧ Relation.TransGen table.SuperStep header ancestor) ∧
      ∀ parent, table.SuperStep header parent →
        (chain = parent :: table.superclassChain parent ↔ ¬table.OnCycle header) := by
  intro chain
  refine ⟨turns_superclassChain hheader, superclassChain_isAncestorWalk hheader, ?_, ?_, ?_⟩
  · intro walk hwalk
    exact hwalk.eq
  · intro ancestor
    exact mem_superclassChain hheader
  · intro parent hstep
    exact superclassChain_eq_cons_iff hheader hstep

/-- A class that is known by its own name and that of its superclass. -/
def subclass (name superclass : String) : ClassHeader :=
  ⟨name, some superclass, .empty, []⟩

/-- A class above which two others are each other's superclass. -/
def rhoTable : ClassTable :=
  initial.insert (subclass "C" "D") |>.insert (subclass "D" "E") |>.insert (subclass "E" "D")

/-- The walk up from the first class stops before it comes to the second one again, and the first
class is not on the cycle. -/
theorem superclassChain_rhoTable :
    subclass "C" "D" ∈ rhoTable.toList ∧
      rhoTable.superclassChain (subclass "C" "D") = [subclass "D" "E", subclass "E" "D"] ∧
      rhoTable.superclassChain (subclass "D" "E") = [subclass "E" "D"] ∧
      ¬rhoTable.OnCycle (subclass "C" "D") := by
  have hlower : subclass "C" "D" ∈ rhoTable.toList := by decide
  have hupper : subclass "D" "E" ∈ rhoTable.toList := by decide
  have hfirst : rhoTable.SuperStep (subclass "C" "D") (subclass "D" "E") := ⟨"D", rfl, by decide⟩
  have hsecond : rhoTable.SuperStep (subclass "D" "E") (subclass "E" "D") := ⟨"E", rfl, by decide⟩
  obtain ⟨-, -, hlowerOnly, -, hcons⟩ := superclassChain_walks_up rhoTable _ hlower
  obtain ⟨-, -, hupperOnly, -, -⟩ := superclassChain_walks_up rhoTable _ hupper
  have hlowerChain := hlowerOnly [subclass "D" "E", subclass "E" "D"]
    ⟨by simp [hfirst, hsecond], by decide, Or.inr ⟨"D", rfl, Or.inr (by decide)⟩⟩
  have hupperChain := hupperOnly [subclass "E" "D"]
    ⟨by simp [hsecond], by decide, Or.inr ⟨"D", rfl, Or.inr (by decide)⟩⟩
  refine ⟨hlower, hlowerChain.symm, hupperChain.symm, ?_⟩
  apply (hcons _ hfirst).1
  rw [← hlowerChain, ← hupperChain]

end ClassMetrics.ClassTable
